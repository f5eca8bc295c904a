import CrateAtlas.Project.Model
import CrateAtlas.Report.File

/-!
# Reports on projects

Models of projects as documents.
-/

namespace CrateAtlas

/-- Information on a project as a document. -/
def ProjectInfo.toDocument (p : ProjectInfo) : Document :=
  .mapping [
    ("name", .text p.name),
    ("version", .text p.version),
    ("edition", .text p.edition),
    ("root_path", .text p.rootPath)]

/-- Dependencies as a document. -/
def Dependencies.toDocument (d : Dependencies) : Document :=
  .mapping [
    ("direct", .texts d.direct),
    ("dev_dependencies", .texts d.dev),
    ("build_dependencies", .texts d.build)]

namespace ProjectModel

/-- The entries of a project's document. -/
def entries (m : ProjectModel) : Reported (List (String × Document)) := do
  let files ← m.files.mapM FileModel.toDocument
  let metrics ← m.metrics.toDocument
  return [
    ("project", m.project.toDocument),
    ("files", .list files),
    ("metrics", metrics),
    ("failures", m.failures.toDocument),
    ("dependencies", m.dependencies.toDocument),
    ("cross_references", .list (m.references.map Reference.toDocument)),
    ("namespaces", .list (m.namespaces.map Namespace.toDocument))]

/-- One entry of a project's document. -/
def only (m : ProjectModel) (key : String) : Reported Document :=
  m.entries.map fun entries => .mapping (entries.filter fun entry => entry.1 == key)

/-- The paths of the files. -/
def paths (m : ProjectModel) : Document :=
  .texts (m.files.map FileModel.relativePath)

/-- The entries of a summary. -/
def summaryEntries (m : ProjectModel) : Reported (List (String × Document)) := do
  let metrics ← m.metrics.toDocument
  return [
    ("project", m.project.toDocument),
    ("metrics", metrics),
    ("failures", m.failures.toDocument),
    ("dependencies", m.dependencies.toDocument),
    ("files", m.paths)]

/-- A project without its files. -/
def summary (m : ProjectModel) : Reported Document :=
  m.summaryEntries.map .mapping

/-- A project with the identity of its run, without its files and namespaces. -/
def runSummary (m : ProjectModel) : Reported Document :=
  m.summaryEntries.map fun entries => .mapping (entries ++ [
    ("run_id", .text m.runId),
    ("extracted_at", .text m.extractedAt),
    ("cross_references", .list (m.references.map Reference.toDocument))])

/-- A project as a document with the summaries derived from it. -/
def full (m : ProjectModel) : Reported Document := do
  let entries ← m.entries
  let rate ← Quantity.toDocument m.failures.successRate
  return .mapping (entries ++ [
    ("counts", Counts.headline m.metrics.kindCounts),
    ("success_rate", rate)])

end ProjectModel

end CrateAtlas
