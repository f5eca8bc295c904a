import CrateAtlas.FileTree.Basic
import CrateAtlas.Settings.Check

/-!
# Settings files

Settings are loaded from a file, or from the first usable file among the standard places:
the file that the environment names, four names in a directory, and one below the home
directory.  A file in a standard place that is refused is skipped with a warning.  A path
that is not absolute begins at the working directory of the process, which need not be the
directory that is searched.
-/

namespace CrateAtlas

/-- Why settings cannot be loaded from a file. -/
inductive LoadError where
  | refused (error : SettingsError)
  | undecodable (refusal : Text.Utf8.Refusal)
  | unusable (path : String) (error : PathError)
  | parserFailed
  | unlistedKeys
deriving DecidableEq, Repr

/-- The outcome of loading, with the warnings given on the way. -/
structure Loaded where
  result : Except LoadError Settings
  warnings : List SettingsWarning

/-- A fault of settings as a reason not to load them: a refusal, unless the reading failed. -/
def LoadError.ofFault : SettingsError → LoadError
  | .unlistedKeys => unlistedKeys
  | fault => refused fault

/-- A check as the outcome of loading. -/
def Verdict.loaded (verdict : Verdict) : Loaded :=
  ⟨verdict.result.mapError .ofFault, verdict.warnings⟩

namespace Settings

/-- Load settings from the file at a path, for a process whose working directory is at the place
{lit}`here`. -/
def load (top : FileTree) (here : List String) (path : String) : Loaded :=
  let shown := PosixPath.tidy path
  match top.fileFrom here shown with
  | .error .nullByte => ⟨.error (.unusable shown .nullByte), []⟩
  | .error .notFound => ⟨.error (.refused (.fileNotFound shown)), []⟩
  | .error _ => ⟨.error (.refused (.fileUnreadable shown foreignDetail)), []⟩
  | .ok content =>
      match Text.Utf8.decode content.bytes with
      | .error refusal => ⟨.error (.undecodable refusal), []⟩
      | .ok _ =>
          if content.breaksOff then ⟨.error .parserFailed, []⟩
          else
            match content.document with
            | none => ⟨.error (.refused (.fileUnparsable shown foreignDetail)), []⟩
            | some document => (ofDocument shown document).loaded

/-- The names of settings files in a directory. -/
def standardNames : List String :=
  ["rsextract.yaml", "rsextract.yml", ".rsextract.yaml", "rsextract.json"]

/-- The standard places, best first; an empty name in the environment counts for nothing. -/
def standardPaths (named : Option String) (directory home : String) : List String :=
  (named.filter fun path => path != "").toList ++
    standardNames.map (PosixPath.below directory) ++
    [PosixPath.below home ".config/rsextract/config.yaml"]

/-- The settings of the first file that loads, or the defaults.  A path that leads to no file
counts for nothing, except that a name which is too long ends the search.  A file that is
refused gives a warning; one on which the reading fails in another way ends the search. -/
def loadFirst (top : FileTree) (here : List String) : List String → Loaded
  | [] => ⟨.ok Settings.default, []⟩
  | path :: rest =>
      let shown := PosixPath.tidy path
      match top.fileFrom here shown with
      | .error .nameTooLong => ⟨.error (.unusable shown .nameTooLong), []⟩
      | .error _ => loadFirst top here rest
      | .ok _ =>
          let loaded := load top here path
          match loaded.result with
          | .error (.refused error) =>
              let later := loadFirst top here rest
              ⟨later.result, loaded.warnings ++ .ignored shown error :: later.warnings⟩
          | _ => loaded

end Settings

end CrateAtlas
