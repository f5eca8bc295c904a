import CrateAtlas.Failure
import CrateAtlas.FileTree.Basic
import CrateAtlas.Node.Fault
import CrateAtlas.Reference.Resolver

/-!
# Extraction from a file

A file is read if it is small enough, decoded, checked for syntax errors, and turned into
a model.
-/

namespace CrateAtlas

/-- A file that was read and has no syntax errors. -/
structure ParsedFile where
  path : String
  source : Source
  text : String
  root : Node

/-- Why the extraction from a file fails. -/
inductive ExtractionError where
  | nullByte
  | file (error : FileError)
  | model (fault : FileModel.Fault)
deriving DecidableEq, Repr

namespace ParsedFile

/-- Take in the content of a file, with a limit on the number of bytes. -/
def ofContent (path : String) (limit : Int) (content : FileContent) :
    Except FileError ParsedFile :=
  if limit < Int.ofNat content.bytes.length then
    .error (.tooLarge path content.bytes.length limit)
  else
    match Text.Utf8.decode content.bytes with
    | .error refusal =>
        .error (.unreadable path
          s!"not valid UTF-8 ({refusal.reason.message} at byte {refusal.offset})")
    | .ok text =>
        if content.root.hasError then
          let point := content.root.firstFault? content.bytes
          .error (.parse path s!"{content.root.faults.length} syntax error node(s)"
            (point.map fun p => Int.ofNat p.1) (point.map fun p => Int.ofNat p.2))
        else .ok ⟨path, content.bytes, text, content.root⟩

/-- Read the file at a path, with a limit on the number of bytes. -/
def read (top : FileTree) (path : String) (limit : Int) : Except ExtractionError ParsedFile :=
  match top.fileAt path with
  | .ok content => (ofContent path limit content).mapError .file
  | .error .nullByte => .error .nullByte
  | .error error => .error (.file (.unreadable path error.words))

/-- The model of a parsed file under its path in the project. -/
def model (parsed : ParsedFile) (relativePath : String) (options : ReadOptions) :
    Except FileModel.Fault FileModel :=
  FileModel.build (PosixPath.absolute parsed.path) ⟨parsed.source, relativePath, options⟩
    parsed.text parsed.root

end ParsedFile

/-- Extract the model of the file at an absolute path; its identifiers use the path from
{lit}`root`. -/
def extractFile (top : FileTree) (path root : String) (limit : Int) (options : ReadOptions) :
    Except ExtractionError FileModel := do
  let parsed ← ParsedFile.read top path limit
  (parsed.model (PosixPath.relative path root) options).mapError .model

/-- The record of a file whose extraction failed for a reason that is not one of files. -/
def FileFailure.unexpected (relativePath detail : String) : FileFailure :=
  ⟨relativePath, "internal_error",
    "Unexpected error processing " ++ relativePath ++ ": " ++ detail⟩

/-- Process a file of a run: its model, or the record of its failure. -/
def processFile (top : FileTree) (path root : String) (limit : Int) (options : ReadOptions) :
    Except FileFailure FileModel :=
  let relativePath := PosixPath.relative path root
  (extractFile top path root limit options).mapError fun
    | .nullByte => .unexpected relativePath PathError.nullByte.words
    | .file error => ⟨relativePath, error.kind, error.message⟩
    | .model fault => .unexpected relativePath fault.message

end CrateAtlas
