import CrateAtlas.Document.Basic
import CrateAtlas.FileTree.Basic

/-!
# Manifests

The manifest of a crate names the project and its dependencies.  What it does not say, or
does not say as text, has a default; without a manifest the project is called like its
directory.
-/

namespace CrateAtlas

/-- What is known about a project. -/
structure ProjectInfo where
  name : String
  version : String
  edition : String
  rootPath : String
deriving DecidableEq, Repr

/-- The names of the dependencies of a project. -/
structure Dependencies where
  direct : List String
  dev : List String
  build : List String
deriving DecidableEq, Repr

namespace Manifest

/-- The name of the manifest in the root of a project. -/
def fileName : String := "Cargo.toml"

/-- The manifest in a directory, none if it is absent or malformed; fails if it is not
UTF-8. -/
def load (top : FileTree) (root : String) : Except Text.Utf8.Refusal (Option Document) :=
  match top.fileAt (PosixPath.below root fileName) with
  | .error _ => .ok none
  | .ok content => (Text.Utf8.decode content.bytes).map fun _ => content.document

/-- The text under a key, or a default. -/
def textField (section_ : List (String × Document)) (key absent : String) : String :=
  match Document.entry? section_ key with
  | some (.text value) => value
  | _ => absent

/-- What a manifest says about the project in a directory. -/
def projectInfo (root : String) (manifest : Option Document) : ProjectInfo :=
  let directory := PosixPath.baseName root
  let fallback := if directory = "" then "unknown-project" else directory
  let package :=
    match manifest.bind fun document => document.get? "package" with
    | some (.mapping entries) => entries
    | _ => []
  { name := textField package "name" fallback
    version := textField package "version" "0.1.0"
    edition := textField package "edition" "2021"
    rootPath := root }

/-- The names in a table, in increasing order. -/
def tableNames (manifest : Option Document) (key : String) : List String :=
  match manifest.bind fun document => document.get? key with
  | some (.mapping entries) => (entries.map Prod.fst).mergeSort fun a b => a ≤ b
  | _ => []

/-- The dependencies that a manifest names. -/
def dependencies (manifest : Option Document) : Dependencies where
  direct := tableNames manifest "dependencies"
  dev := tableNames manifest "dev-dependencies"
  build := tableNames manifest "build-dependencies"

end Manifest

end CrateAtlas
