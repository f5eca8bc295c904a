import CrateAtlas.Digest.Sha256
import CrateAtlas.Element
import CrateAtlas.Import
import CrateAtlas.Measure.Metrics
import CrateAtlas.PosixPath
import CrateAtlas.ScopePath.Candidate

/-!
# Models of files

The model of a source file holds its elements, imports, references and metrics, together
with the module of the crate that the file stands for.
-/

namespace CrateAtlas

/-! ## The module of a file -/

/-- File names, without suffix, that stand for the module of their directory. -/
def isModuleRoot (stem : String) : Bool :=
  stem == "lib" || stem == "main" || stem == "mod"

/-- Drop the source directory at the front. -/
def dropSourceDirectory : List String → List String
  | "src" :: rest => rest
  | parts => parts

/-- Drop the name of a file that stands for its directory. -/
def dropModuleRoot (parts : List String) : List String :=
  match parts.getLast? with
  | some last => if isModuleRoot last then parts.dropLast else parts
  | none => parts

/-- The module of the crate that a file stands for: {lit}`src/net/tcp.rs` is
{lit}`crate::net::tcp`. -/
def modulePathOf (relativePath : String) : Except PosixPath.EmptyName String :=
  (PosixPath.partsWithoutSuffix relativePath).map fun parts =>
    ScopePath.join (ScopePath.crateRoot :: dropModuleRoot (dropSourceDirectory parts))

/-! ## Models -/

/-- The model of a source file. -/
structure FileModel where
  path : String
  relativePath : String
  modulePath : String
  contentHash : String
  elements : List Element
  imports : List ImportRecord
  metrics : FileMetrics
  references : List Reference
deriving DecidableEq, Repr

namespace FileModel

/-- The elements of one kind. -/
def ofKind (model : FileModel) (kind : Kind) : List Element :=
  model.elements.filter fun element => element.kind = kind

/-- The references that have a target. -/
def resolved (model : FileModel) : List Reference :=
  model.references.filter Reference.isResolved

/-- Why a file has no model although it could be read. -/
inductive Fault where
  /-- The text under a node is not UTF-8. -/
  | undecodable (refusal : Text.Utf8.Refusal)
  /-- The file has no name that a module could have. -/
  | emptyName (fault : PosixPath.EmptyName)
deriving DecidableEq, Repr

/-- The wording of a fault. -/
def Fault.message : Fault → String
  | undecodable refusal => refusal.message
  | emptyName fault => fault.message

/-- The references of the top-level imports: one for each name that is imported. -/
def importReferences (file : SourceFile) (declaration : UseDeclaration) : List Reference :=
  let location := Location.of file.source file.path declaration.label
  declaration.records.flatMap fun record =>
    record.names.map fun name =>
      { origin := none
        type := .importReference
        text := ScopePath.join [record.modulePath, name]
        location := location
        scope := ""
        target := none }

/-- The model of a file before its references are resolved: references of imports first,
then those of the elements in source order. -/
def unresolved (path : String) (file : SourceFile) (text : String) (root : Node) :
    Except Fault FileModel := do
  let elements ← (elementsOf file root).mapError .undecodable
  let declarations ← (UseDeclaration.ofRoot file.source root).mapError .undecodable
  let modulePath ← (modulePathOf file.path).mapError .emptyName
  return {
    path := path
    relativePath := file.path
    modulePath := modulePath
    contentHash := Digest.Sha256.hexDigest file.source
    elements := elements
    imports := declarations.flatMap UseDeclaration.records
    metrics := FileMetrics.measure text elements
    references :=
      declarations.flatMap (importReferences file) ++ elements.flatMap (Element.references file) }

end FileModel

end CrateAtlas
