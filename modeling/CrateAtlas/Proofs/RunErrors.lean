import CrateAtlas.Proofs.CompletionOrder
import CrateAtlas.Proofs.Walk

/-!
# Answers of runs

A run without a cancel signal is documented to give a model or one of three errors: its root is no
directory, nothing was found there, or nothing that was found could be processed.  Everything that
goes wrong with a single file is in the failure report.  What goes wrong before the files are
handed out is not: a pattern that cannot be read and a manifest that is not UTF-8 stop a run with
an error of their own.

Main results:

- Theorem {lit}`extractProject_cases`: all answers of a run, each with its circumstances.
- Theorem {lit}`extractProject_documented`: the answer is a documented one if the patterns of the
  settings can be read and the manifest, if there is one, is UTF-8.
- Theorem {lit}`extractProject_undocumented`: without either, it need not be.
-/

namespace CrateAtlas

namespace ProjectRun

/-- The answers that a run is documented to give, each with its circumstances. -/
inductive Documented (top : FileTree) (root : String) (settings : Settings) :
    Except ProjectError ProjectModel → Prop where
  | invalidRoot :
      top.isDirectoryAt (PosixPath.absolute root) = false →
      Documented top root settings (.error (.run (.invalidRoot (PosixPath.absolute root))))
  | nothingFound :
      top.isDirectoryAt (PosixPath.absolute root) = true →
      Discovery.sourceFiles top settings (PosixPath.absolute root) = .ok [] →
      Documented top root settings (.error (.run (.nothingFound (PosixPath.absolute root))))
  /-- Every file that was found failed. -/
  | nothingParsed {paths : List String} {failures : List FileFailure} :
      Discovery.sourceFiles top settings (PosixPath.absolute root) = .ok paths → paths ≠ [] →
      (paths.map fun path => processFile top path (PosixPath.absolute root) settings.maxFileSize
        settings.readOptions) = failures.map .error →
      Documented top root settings (.error (.run (.nothingParsed (.build 0 failures))))
  /-- Some file was processed, and the report counts all that were found. -/
  | model {paths : List String} {model : ProjectModel} :
      Discovery.sourceFiles top settings (PosixPath.absolute root) = .ok paths →
      model.files ≠ [] → model.failures.total = paths.length →
      Documented top root settings (.ok model)

/-! ## Joining -/

theorem eq_failures_of_models {results : List (Except FileFailure FileModel)}
    (h : models results = []) : results = (failures results).map .error := by
  induction results with
  | nil => rfl
  | cons result rest ih =>
      cases result with
      | ok model => cases h
      | error failure => exact congrArg (Except.error failure :: ·) (ih h)

theorem length_models_add_failures (results : List (Except FileFailure FileModel)) :
    (models results).length + (failures results).length = results.length := by
  have hlength := (models_append_failures_perm results).length_eq
  simpa using hlength

/-- Joining the results of files gives a model if one of them was processed, and else reports
them as failures. -/
theorem join_cases (project : ProjectInfo) (dependencies : Dependencies)
    (runId extractedAt : String) (results : List (Except FileFailure FileModel)) :
    (results = (failures results).map .error ∧
      join project dependencies runId extractedAt results =
        .error (.run (.nothingParsed (.build 0 (failures results))))) ∨
    ∃ model, join project dependencies runId extractedAt results = .ok model ∧
      model.project = project ∧ model.files ≠ [] ∧ model.failures.total = results.length := by
  unfold join
  split
  · rename_i hempty
    exact .inl ⟨eq_failures_of_models (List.isEmpty_iff.mp hempty), rfl⟩
  · rename_i hsome
    refine .inr ⟨_, rfl, rfl, ?_, ?_⟩
    · have hordered : ProjectModel.ordered (models results) ≠ [] := fun hnil =>
        hsome (List.isEmpty_iff.mpr ((hnil ▸ ProjectModel.ordered_perm _).symm.eq_nil))
      simpa [ProjectModel.aggregate] using hordered
    · have hcount := length_models_add_failures results
      simp only [ProjectModel.aggregate, FailureReport.build, List.length_map,
        (ProjectModel.ordered_perm _).length_eq, List.length_mergeSort]
      omega

/-! ## Before files are handed out -/

variable {top : FileTree} {root : String} {settings : Settings}

/-- What happens before files are handed out, stage by stage. -/
theorem prepare_eq (top : FileTree) (root : String) (settings : Settings) :
    prepare top root settings =
      if top.isDirectoryAt (PosixPath.absolute root) then
        match Discovery.sourceFiles top settings (PosixPath.absolute root) with
        | .error error => .error (.walk error)
        | .ok [] => .error (.run (.nothingFound (PosixPath.absolute root)))
        | .ok (path :: rest) =>
            match Manifest.load top (PosixPath.absolute root) with
            | .error refusal => .error (.undecodable refusal)
            | .ok manifest =>
                .ok ⟨PosixPath.absolute root, path :: rest,
                  Manifest.projectInfo (PosixPath.absolute root) manifest,
                  if settings.parseDependencies then Manifest.dependencies manifest
                  else ⟨[], [], []⟩⟩
      else .error (.run (.invalidRoot (PosixPath.absolute root))) := by
  simp only [prepare]
  cases top.isDirectoryAt (PosixPath.absolute root) with
  | false => rfl
  | true =>
      cases Discovery.sourceFiles top settings (PosixPath.absolute root) with
      | error error => rfl
      | ok paths =>
          cases paths with
          | nil => rfl
          | cons path rest =>
              cases Manifest.load top (PosixPath.absolute root) with
              | error refusal => rfl
              | ok manifest => rfl

/-- A run that finds files, and a manifest that can be read or none, joins what comes of its
files. -/
theorem extractProject_eq_join {base : String} {paths : List String} {manifest : Option Document}
    {runId extractedAt : String} (hbase : PosixPath.absolute root = base)
    (hroot : top.isDirectoryAt base = true)
    (hpaths : Discovery.sourceFiles top settings base = .ok paths) (hsome : paths ≠ [])
    (hmanifest : Manifest.load top base = .ok manifest) :
    extractProject top root settings never runId extractedAt =
      join (Manifest.projectInfo base manifest)
        (if settings.parseDependencies then Manifest.dependencies manifest else ⟨[], [], []⟩)
        runId extractedAt
        (paths.map fun path =>
          processFile top path base settings.maxFileSize settings.readOptions) := by
  subst hbase
  rw [extractProject_eq, prepare_eq, if_pos hroot, hpaths, hmanifest]
  cases paths with
  | nil => exact absurd rfl hsome
  | cons path rest =>
      simp only [bind, Except.bind, results_never]
      rfl

/-- A run that processes one of its files gives a model of the project that the manifest names. -/
theorem exists_extractProject_of_processed {base path : String} {paths : List String}
    {manifest : Option Document} {file : FileModel} (runId extractedAt : String)
    (hbase : PosixPath.absolute root = base) (hroot : top.isDirectoryAt base = true)
    (hpaths : Discovery.sourceFiles top settings base = .ok paths) (hpath : path ∈ paths)
    (hfile : processFile top path base settings.maxFileSize settings.readOptions = .ok file)
    (hmanifest : Manifest.load top base = .ok manifest) :
    ∃ model, extractProject top root settings never runId extractedAt = .ok model ∧
      model.project = Manifest.projectInfo base manifest := by
  rw [extractProject_eq_join hbase hroot hpaths (List.ne_nil_of_mem hpath) hmanifest]
  rcases join_cases (Manifest.projectInfo base manifest) _ runId extractedAt (paths.map fun path =>
    processFile top path base settings.maxFileSize settings.readOptions) with
    ⟨hfailed, -⟩ | ⟨model, hjoin, hproject, -⟩
  · have hresult : .ok file ∈ paths.map fun path =>
        processFile top path base settings.maxFileSize settings.readOptions :=
      List.mem_map.mpr ⟨path, hpath, hfile⟩
    rw [hfailed] at hresult
    obtain ⟨failure, -, h⟩ := List.mem_map.mp hresult
    cases h
  · exact ⟨model, hjoin, hproject⟩

/-- Only a manifest that is not UTF-8 cannot be loaded. -/
theorem exists_of_load {refusal : Text.Utf8.Refusal} (h : Manifest.load top root = .error refusal) :
    ∃ content, top.fileAt (PosixPath.below root Manifest.fileName) = .ok content ∧
      Text.Utf8.decode content.bytes = .error refusal := by
  unfold Manifest.load at h
  split at h
  · cases h
  · rename_i content hcontent
    exact ⟨content, hcontent, Outcome.map_eq_error_iff.mp h⟩

/-- What may happen before files are handed out. -/
theorem prepare_cases (top : FileTree) (root : String) (settings : Settings) :
    (∃ prepared, prepare top root settings = .ok prepared ∧ prepared.paths ≠ []) ∨
    (top.isDirectoryAt (PosixPath.absolute root) = false ∧
      prepare top root settings = .error (.run (.invalidRoot (PosixPath.absolute root)))) ∨
    (top.isDirectoryAt (PosixPath.absolute root) = true ∧
      Discovery.sourceFiles top settings (PosixPath.absolute root) = .ok [] ∧
      prepare top root settings = .error (.run (.nothingFound (PosixPath.absolute root)))) ∨
    (∃ bad, prepare top root settings = .error (.walk (.badPattern bad)) ∧
      ∃ pattern ∈ settings.selected ++ settings.excluded, Glob.compile pattern = .error bad) ∨
    ∃ content refusal, prepare top root settings = .error (.undecodable refusal) ∧
      top.fileAt (PosixPath.below (PosixPath.absolute root) Manifest.fileName) = .ok content ∧
      Text.Utf8.decode content.bytes = .error refusal := by
  rw [prepare_eq]
  cases hroot : top.isDirectoryAt (PosixPath.absolute root) with
  | false => exact .inr (.inl ⟨rfl, rfl⟩)
  | true =>
      cases hpaths : Discovery.sourceFiles top settings (PosixPath.absolute root) with
      | error error =>
          obtain ⟨bad, rfl, hbad⟩ := Discovery.blames_of_sourceFiles hroot hpaths
          exact .inr (.inr (.inr (.inl ⟨bad, rfl, hbad⟩)))
      | ok paths =>
          cases paths with
          | nil => exact .inr (.inr (.inl ⟨rfl, rfl, rfl⟩))
          | cons path rest =>
              cases hmanifest : Manifest.load top (PosixPath.absolute root) with
              | ok manifest => exact .inl ⟨_, rfl, List.cons_ne_nil _ _⟩
              | error refusal =>
                  obtain ⟨content, hmanifest⟩ := exists_of_load hmanifest
                  exact .inr (.inr (.inr (.inr ⟨content, refusal, rfl, hmanifest⟩)))

/-- All answers of a run without a cancel signal: a documented one, or the error of a pattern that
cannot be read, or that of a manifest that is not UTF-8. -/
theorem extractProject_cases (top : FileTree) (root : String) (settings : Settings)
    (runId extractedAt : String) :
    Documented top root settings (extractProject top root settings never runId extractedAt) ∨
    (∃ bad, extractProject top root settings never runId extractedAt =
        .error (.walk (.badPattern bad)) ∧
      ∃ pattern ∈ settings.selected ++ settings.excluded, Glob.compile pattern = .error bad) ∨
    ∃ content refusal, extractProject top root settings never runId extractedAt =
        .error (.undecodable refusal) ∧
      top.fileAt (PosixPath.below (PosixPath.absolute root) Manifest.fileName) = .ok content ∧
      Text.Utf8.decode content.bytes = .error refusal := by
  rw [extractProject_eq]
  rcases prepare_cases top root settings with ⟨prepared, hprepared, hsome⟩ | ⟨hroot, hprepared⟩ |
    ⟨hroot, hnone, hprepared⟩ | ⟨bad, hprepared, hbad⟩ | ⟨content, refusal, hprepared, hmanifest⟩
  · rw [hprepared]
    obtain ⟨hroot, hpaths⟩ := sourceFiles_of_prepare hprepared
    show Documented top root settings (prepared.answer top settings runId extractedAt
      (results never id prepared.paths)) ∨ _
    rw [results_never]
    left
    show Documented top root settings (join prepared.project prepared.dependencies runId
      extractedAt (prepared.paths.map (prepared.process top settings)))
    rcases join_cases prepared.project prepared.dependencies runId extractedAt
      (prepared.paths.map (prepared.process top settings)) with
      ⟨hfailed, hjoin⟩ | ⟨model, hjoin, -, hfiles, htotal⟩
    · rw [hjoin]
      refine .nothingParsed hpaths hsome ?_
      rw [← hroot]
      exact hfailed
    · rw [hjoin]
      rw [List.length_map] at htotal
      exact .model hpaths hfiles htotal
  · rw [hprepared]
    exact .inl (.invalidRoot hroot)
  · rw [hprepared]
    exact .inl (.nothingFound hroot hnone)
  · rw [hprepared]
    exact .inr (.inl ⟨bad, rfl, hbad⟩)
  · rw [hprepared]
    exact .inr (.inr ⟨content, refusal, rfl, hmanifest⟩)

end ProjectRun

open ProjectRun

/-- With settings that pass their check and whose patterns can be read, and without a manifest or
with one that is UTF-8, a run that is not cancelled gives a documented answer, and it has a worker
to hand its files to. -/
theorem extractProject_documented {top : FileTree} {root : String} {settings : Settings}
    {processors : Int} {runId extractedAt : String}
    (hsettings : settings.check.result = .ok settings) (hprocessors : 0 < processors)
    (hpatterns : ∀ pattern ∈ settings.selected ++ settings.excluded,
      ∃ pieces, Glob.compile pattern = .ok pieces)
    (hmanifest : ∀ content,
      top.fileAt (PosixPath.below (PosixPath.absolute root) Manifest.fileName) = .ok content →
      ∃ text, Text.Utf8.decode content.bytes = .ok text) :
    Documented top root settings (extractProject top root settings never runId extractedAt) ∧
      ∀ prepared, prepare top root settings = .ok prepared →
        0 < prepared.workers settings processors := by
  refine ⟨?_, fun prepared _ => prepared.workers_pos hsettings hprocessors⟩
  rcases extractProject_cases top root settings runId extractedAt with hdocumented |
    ⟨bad, -, pattern, hpattern, hbad⟩ | ⟨content, refusal, -, hcontent, hrefusal⟩
  · exact hdocumented
  · obtain ⟨pieces, hpieces⟩ := hpatterns pattern hpattern
    rw [hbad] at hpieces
    contradiction
  · obtain ⟨text, htext⟩ := hmanifest content hcontent
    rw [hrefusal] at htext
    contradiction

/-! ## A project with a manifest -/

namespace Sample

/-- A project of one file with a manifest of the given bytes. -/
def withManifest (bytes : Source) : FileTree :=
  .directory [("p", .directory [("Cargo.toml", .file ⟨bytes, root, none, false⟩),
    ("a.rs", .file ⟨text.toUTF8.toList, root, none, false⟩)])]

theorem lookup_withManifest (bytes : Source) :
    (withManifest bytes).lookup "/p" = .ok ⟨["p"], .directory
      [("Cargo.toml", .file ⟨bytes, root, none, false⟩),
        ("a.rs", .file ⟨text.toUTF8.toList, root, none, false⟩)], 40⟩ :=
  rfl

theorem sourceFiles_withManifest (bytes : Source) :
    Discovery.sourceFiles (withManifest bytes) settings "/p" = .ok ["/p/a.rs"] := by
  have hkept : Discovery.keptFiles (.of .empty settings false) []
      [("Cargo.toml", .file false), ("a.rs", .file false)] = .ok [["a.rs"]] := rfl
  exact Discovery.sourceFiles_flat_ok (lookup_withManifest bytes) (by simp) (by simp) hkept
    (by simp)

/-- Settings whose only pattern holds a class that runs backwards. -/
def backwards : Settings :=
  { settings with selected := ["[z-a].rs"] }

theorem sourceFiles_backwards (bytes : Source) :
    Discovery.sourceFiles (withManifest bytes) backwards "/p" = .error (.badPattern ⟨⟩) := by
  have hfails : Discovery.keptFiles (.of .empty backwards false) []
      [("Cargo.toml", .file false), ("a.rs", .file false)] = .error ⟨⟩ := rfl
  rw [Discovery.sourceFiles_flat (lookup_withManifest bytes) (by simp) (by simp)]
  show ((Discovery.keptFiles _ [] [("Cargo.toml", .file false), ("a.rs", .file false)]).mapError
    _).map _ = _
  rw [hfails]
  rfl

theorem check_settings : settings.check.result = .ok settings := by
  simp [Settings.check, Settings.checkRest, Settings.sharedPatterns, settings, Settings.default]

theorem check_backwards : backwards.check.result = .ok backwards := by
  simp [Settings.check, Settings.checkRest, Settings.sharedPatterns, backwards, settings,
    Settings.default]

end Sample

/-- A manifest that is not UTF-8 and a class that runs backwards stop a run with errors that are
not documented, although the settings pass their check. -/
theorem extractProject_undocumented :
    (Sample.settings.check.result = .ok Sample.settings ∧
      extractProject (Sample.withManifest [0xff]) "/p" Sample.settings never "run" "now" =
        .error (.undecodable ⟨0, [0xff], .invalidStart⟩)) ∧
    Sample.backwards.check.result = .ok Sample.backwards ∧
      extractProject (Sample.withManifest []) "/p" Sample.backwards never "run" "now" =
        .error (.walk (.badPattern ⟨⟩)) := by
  have habsolute : PosixPath.absolute "/p" = "/p" := by decide
  have hroot : ∀ bytes, (Sample.withManifest bytes).isDirectoryAt "/p" = true := fun _ => rfl
  refine ⟨⟨Sample.check_settings, ?_⟩, Sample.check_backwards, ?_⟩
  · have hmanifest : Manifest.load (Sample.withManifest [0xff]) "/p" =
        .error ⟨0, [0xff], .invalidStart⟩ := rfl
    rw [extractProject_eq, prepare_eq, habsolute, hroot, Sample.sourceFiles_withManifest, hmanifest]
    rfl
  · rw [extractProject_eq, prepare_eq, habsolute, hroot, Sample.sourceFiles_backwards]
    rfl

/-- With a manifest that is UTF-8 the answer is documented. -/
theorem extractProject_documented_sample :
    Documented (Sample.withManifest [0x61]) "/p" Sample.settings
        (extractProject (Sample.withManifest [0x61]) "/p" Sample.settings never "run" "now") ∧
      ∀ prepared, prepare (Sample.withManifest [0x61]) "/p" Sample.settings = .ok prepared →
        0 < prepared.workers Sample.settings 2 := by
  refine extractProject_documented Sample.check_settings (by decide) ?_ ?_
  · intro pattern hpattern
    have heq : pattern = "*.rs" := by simpa [Sample.settings] using hpattern
    rw [heq]
    exact ⟨_, rfl⟩
  · intro content hcontent
    have hfile : (Sample.withManifest [0x61]).fileAt "/p/Cargo.toml" =
        .ok ⟨[0x61], Sample.root, none, false⟩ := rfl
    have hpath : PosixPath.below (PosixPath.absolute "/p") Manifest.fileName = "/p/Cargo.toml" := by
      decide
    rw [hpath, hfile] at hcontent
    cases hcontent
    exact ⟨"a", rfl⟩

end CrateAtlas
