import CrateAtlas.Document.Basic
import CrateAtlas.Item.Basic

/-!
# Settings

The settings of a run: what is read, how large a file may be, which files are selected,
and how many workers share the work.
-/

namespace CrateAtlas

/-- The settings of a run. -/
structure Settings where
  includeDocs : Bool
  includePrivate : Bool
  parseDependencies : Bool
  maxFileSize : Int
  selected : List String
  excluded : List String
  maxWorkers : Option Int
deriving DecidableEq, Repr

namespace Settings

/-- The settings that hold when nothing is said. -/
def default : Settings where
  includeDocs := true
  includePrivate := false
  parseDependencies := false
  maxFileSize := 10 * 1024 * 1024
  selected := ["src/**/*.rs"]
  excluded := ["target/**", "tests/**"]
  maxWorkers := none

/-- The part of the settings that the reading of a file depends on. -/
def readOptions (s : Settings) : ReadOptions :=
  ⟨s.includeDocs, s.includePrivate⟩

/-- The settings as a document, with the patterns under {lit}`filters`. -/
def toDocument (s : Settings) : Document :=
  .mapping [
    ("include_docs", .bool s.includeDocs),
    ("include_private", .bool s.includePrivate),
    ("parse_dependencies", .bool s.parseDependencies),
    ("max_file_size", .int s.maxFileSize),
    ("max_workers", .option .int s.maxWorkers),
    ("filters", .mapping [
      ("include", .texts s.selected),
      ("exclude", .texts s.excluded)])]

/-- The number of workers: the number set, or else the number of processors up to eight,
and in any case no more than there are files. -/
def workers (s : Settings) (processors : Int) (files : Option Int) : Int :=
  let wanted := s.maxWorkers.getD (min processors 8)
  match files with
  | some count => min wanted (max 1 count)
  | none => wanted

end Settings

end CrateAtlas
