import CrateAtlas.Extraction
import CrateAtlas.FileTree.Discovery
import CrateAtlas.Project.Model

/-!
# Runs over a project

A run discovers the source files of a project, hands them to workers, collects their
results and joins them.  A cancel signal is looked at before a file is handed out, after a
result is collected, and once at the end; a run that sees it set gives no model.
-/

namespace CrateAtlas

/-- Why a run gives no model. -/
inductive ProjectError where
  | run (error : RunError)
  | walk (error : Discovery.WalkError)
  | undecodable (refusal : Text.Utf8.Refusal)
deriving DecidableEq, Repr

namespace ProjectRun

/-- The answers of a cancel signal to the successive looks at it. -/
abbrev Signal := Nat → Bool

/-- A signal that is never set. -/
def never : Signal := fun _ => false

/-- A signal that is set after a number of looks. -/
def setAfter (looks : Nat) : Signal := fun look => decide (looks ≤ look)

/-- Hand out files while the signal is not set; the number of looks taken comes along. -/
def handOut (signal : Signal) : (look : Nat) → List α → List α × Nat
  | look, [] => ([], look)
  | look, file :: rest =>
      if signal look then ([], look + 1)
      else
        let (later, after) := handOut signal (look + 1) rest
        (file :: later, after)

/-- Collect results up to the first one after which the signal is set. -/
def collect (signal : Signal) : (look : Nat) → List β → List β × Nat
  | look, [] => ([], look)
  | look, result :: rest =>
      if signal look then ([result], look + 1)
      else
        let (later, after) := collect signal (look + 1) rest
        (result :: later, after)

/-- The results of a run in the order in which they are collected, or the number of those
collected before the run was cancelled.  {lit}`finished` gives the results of the files
handed out in the order in which workers finish. -/
def results (signal : Signal) (finished : List α → List β) (files : List α) :
    Except Nat (List β) :=
  let (handed, look) := handOut signal 0 files
  let (collected, look) := collect signal look (finished handed)
  if signal look then .error collected.length else .ok collected

/-- The models among results. -/
def models (results : List (Except FileFailure FileModel)) : List FileModel :=
  results.filterMap fun
    | .ok model => some model
    | .error _ => none

/-- The failures among results. -/
def failures (results : List (Except FileFailure FileModel)) : List FileFailure :=
  results.filterMap fun
    | .ok _ => none
    | .error failure => some failure

/-- Join the results of a run, unless no file succeeded. -/
def join (project : ProjectInfo) (dependencies : Dependencies) (runId extractedAt : String)
    (results : List (Except FileFailure FileModel)) : Except ProjectError ProjectModel :=
  if (models results).isEmpty then
    .error (.run (.nothingParsed (.build 0 (failures results))))
  else
    .ok (.aggregate project (models results) (failures results) dependencies runId extractedAt)

end ProjectRun

/-- Extract the model of the project in a directory. -/
def extractProject (top : FileTree) (root : String) (settings : Settings)
    (signal : ProjectRun.Signal) (runId extractedAt : String) :
    Except ProjectError ProjectModel := do
  let root := PosixPath.absolute root
  if !top.isDirectoryAt root then throw (.run (.invalidRoot root))
  let paths ← (Discovery.sourceFiles top settings root).mapError .walk
  if paths.isEmpty then throw (.run (.nothingFound root))
  let manifest ← (Manifest.load top root).mapError .undecodable
  let dependencies :=
    if settings.parseDependencies then Manifest.dependencies manifest else ⟨[], [], []⟩
  let process (path : String) :=
    processFile top path root settings.maxFileSize settings.readOptions
  match ProjectRun.results signal (List.map process) paths with
  | .error completed => throw (.run (.cancelled completed))
  | .ok results =>
      ProjectRun.join (Manifest.projectInfo root manifest) dependencies runId extractedAt results

end CrateAtlas
