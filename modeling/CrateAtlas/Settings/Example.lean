import CrateAtlas.FileTree.Write
import CrateAtlas.Settings.Basic

/-!
# An example of a settings file

The example spells out the default settings with comments.  It is YAML: under a name that
stands for JSON it cannot be read.
-/

namespace CrateAtlas.Settings

/-- An example of a settings file, with comments. -/
def exampleText : String :=
  "# rsextract configuration\n" ++
  "\n" ++
  "# Include documentation comments in extraction\n" ++
  "include_docs: true\n" ++
  "\n" ++
  "# Include private items in extraction\n" ++
  "include_private: false\n" ++
  "\n" ++
  "# Read dependency information from Cargo.toml\n" ++
  "parse_dependencies: false\n" ++
  "\n" ++
  "# Maximum file size to process (in bytes)\n" ++
  "max_file_size: 10485760  # 10MB\n" ++
  "\n" ++
  "# Worker threads for parallel file processing (null = CPU count, capped at 8)\n" ++
  "max_workers: null\n" ++
  "\n" ++
  "filters:\n" ++
  "  # Glob patterns for files to include\n" ++
  "  include:\n" ++
  "    - \"src/**/*.rs\"\n" ++
  "  # Glob patterns for files to exclude (exclude wins on overlap)\n" ++
  "  exclude:\n" ++
  "    - \"target/**\"\n" ++
  "    - \"tests/**\"\n"

/-- The document that the example spells out. -/
def exampleDocument : Document :=
  .mapping [
    ("include_docs", .bool true),
    ("include_private", .bool false),
    ("parse_dependencies", .bool false),
    ("max_file_size", .int 10485760),
    ("max_workers", .null),
    ("filters", .mapping [
      ("include", .texts ["src/**/*.rs"]),
      ("exclude", .texts ["target/**", "tests/**"])])]

/-- Whether the name of a file stands for JSON; upper and lower case count alike. -/
def isJsonName (path : String) : Bool :=
  (PosixPath.suffix path).toList.map Char.toLower == ".json".toList

/-- The example as a file with a name. -/
def exampleFile (path : String) : FileContent where
  bytes := exampleText.toUTF8.toList
  root := .empty
  document := if isJsonName path then none else some exampleDocument
  breaksOff := false

/-- Write the example at a path. -/
def writeExample (top : FileTree) (path : String) : Except WriteError FileTree :=
  top.install path (.file (exampleFile path))

end CrateAtlas.Settings
