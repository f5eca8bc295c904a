import CrateAtlas.Settings.Basic
import CrateAtlas.Yaml.Scalar

/-!
# Settings as YAML

Settings are written in the layout in which they are read from files: one key a line, the
patterns as lists under {lit}`filters`.
-/

namespace CrateAtlas.Settings

/-- A truth value. -/
def yamlBool (value : Bool) : String :=
  if value then "true" else "false"

/-- A list of patterns under its key. -/
def yamlPatterns (key : String) (patterns : List String) : String :=
  if patterns.isEmpty then "  " ++ key ++ ": []\n"
  else
    patterns.foldl (fun text pattern => text ++ "  - " ++ Yaml.scalar 4 4 pattern ++ "\n")
      ("  " ++ key ++ ":\n")

/-- The settings as YAML. -/
def toYaml (s : Settings) : String :=
  "include_docs: " ++ yamlBool s.includeDocs ++ "\n" ++
  "include_private: " ++ yamlBool s.includePrivate ++ "\n" ++
  "parse_dependencies: " ++ yamlBool s.parseDependencies ++ "\n" ++
  "max_file_size: " ++ toString s.maxFileSize ++ "\n" ++
  "max_workers: " ++ (match s.maxWorkers with | some n => toString n | none => "null") ++ "\n" ++
  "filters:\n" ++ yamlPatterns "include" s.selected ++ yamlPatterns "exclude" s.excluded

end CrateAtlas.Settings
