import CrateAtlas.Proofs.Integrity
import CrateAtlas.Proofs.Interleaving
import CrateAtlas.Settings.Check

/-!
# Cancellation

A run that is cancelled gives no model, and a run that is not has processed all the files it found.
Both are shown for every interleaving of the main thread, the workers and the setting of the
signal.

Main results:

- Theorem {lit}`extractProject_eq`: a run prepares itself, processes its files and answers.
- Theorem {lit}`Prepared.accounts_of_perm`: results of all files account for each file once.
- Theorem {lit}`extractProject_cancellation`: no model is made from a part of the files.
-/

namespace CrateAtlas

namespace ProjectRun

/-! ## The stages of a run -/

/-- What a run knows when it starts its workers. -/
structure Prepared where
  root : String
  paths : List String
  project : ProjectInfo
  dependencies : Dependencies

/-- Find the files of a project and read its manifest. -/
def prepare (top : FileTree) (root : String) (settings : Settings) :
    Except ProjectError Prepared := do
  let root := PosixPath.absolute root
  if !top.isDirectoryAt root then throw (.run (.invalidRoot root))
  let paths ← (Discovery.sourceFiles top settings root).mapError .walk
  if paths.isEmpty then throw (.run (.nothingFound root))
  let manifest ← (Manifest.load top root).mapError .undecodable
  let dependencies :=
    if settings.parseDependencies then Manifest.dependencies manifest else ⟨[], [], []⟩
  pure ⟨root, paths, Manifest.projectInfo root manifest, dependencies⟩

namespace Prepared

/-- The result of a file. -/
def process (prepared : Prepared) (top : FileTree) (settings : Settings) (path : String) :
    Except FileFailure FileModel :=
  processFile top path prepared.root settings.maxFileSize settings.readOptions

/-- The number of workers of a run. -/
def workers (prepared : Prepared) (settings : Settings) (processors : Int) : Nat :=
  (settings.workers processors (some prepared.paths.length)).toNat

/-- The answer of a run whose pool of workers has stopped. -/
def answer (prepared : Prepared) (top : FileTree) (settings : Settings)
    (runId extractedAt : String) : Except Nat (List String) → Except ProjectError ProjectModel
  | .error completed => .error (.run (.cancelled completed))
  | .ok collected =>
      join prepared.project prepared.dependencies runId extractedAt
        (collected.map (prepared.process top settings))

/-- Some results account for all files of a run: each file is there once, as a model or as a
failure, and stands under its path. -/
structure Accounts (prepared : Prepared) (top : FileTree) (settings : Settings)
    (results : List (Except FileFailure FileModel)) : Prop where
  perm : results.Perm (prepared.paths.map (prepared.process top settings))
  paths_perm : ((models results).map FileModel.relativePath ++
    (failures results).map FileFailure.path).Perm
      (prepared.paths.map fun path => PosixPath.relative path prepared.root)

end Prepared

variable {top : FileTree} {root : String} {settings : Settings} {processors : Int}
  {runId extractedAt : String} {prepared : Prepared}

/-- A run prepares itself, processes its files and answers. -/
theorem extractProject_eq (signal : Signal) :
    extractProject top root settings signal runId extractedAt =
      prepare top root settings >>= fun prepared =>
        prepared.answer top settings runId extractedAt (results signal id prepared.paths) := by
  unfold extractProject prepare
  simp only [results_map]
  split
  · rfl
  · cases Discovery.sourceFiles top settings (PosixPath.absolute root) with
    | error error => rfl
    | ok paths =>
        cases paths with
        | nil => rfl
        | cons path rest =>
            cases Manifest.load top (PosixPath.absolute root) with
            | error refusal => rfl
            | ok manifest =>
                simp only [bind, Except.bind, Except.mapError, pure, Except.pure,
                  List.isEmpty_cons, Bool.false_eq_true, if_false]
                cases results signal id (path :: rest) with
                | error completed => rfl
                | ok collected => rfl

/-! ## Accounting for files -/

/-- The path under which a result stands. -/
def resultPath : Except FileFailure FileModel → String
  | .ok model => model.relativePath
  | .error failure => failure.path

/-- The result of a file stands under the path of the file in the project. -/
theorem resultPath_processFile (top : FileTree) (path root : String) (limit : Int)
    (options : ReadOptions) :
    resultPath (processFile top path root limit options) = PosixPath.relative path root := by
  cases hextract : extractFile top path root limit options with
  | ok model =>
      have hresult : processFile top path root limit options = .ok model :=
        Outcome.mapError_eq_ok_iff.mpr hextract
      rw [hresult]
      exact (processFile_sound hresult).2
  | error error =>
      simp only [processFile, hextract, Except.mapError]
      cases error with
      | nullByte => simp only [resultPath, FileFailure.unexpected]
      | file error => simp only [resultPath]
      | model fault => simp only [resultPath, FileFailure.unexpected]

/-- The models and the failures among results share out the paths of the results. -/
theorem models_append_failures_perm (results : List (Except FileFailure FileModel)) :
    ((models results).map FileModel.relativePath ++
      (failures results).map FileFailure.path).Perm (results.map resultPath) := by
  induction results with
  | nil => exact .refl _
  | cons result rest ih =>
      cases result with
      | ok model => exact ih.cons _
      | error failure => exact List.perm_middle.trans (ih.cons _)

/-- The results of all files account for each file once. -/
theorem Prepared.accounts_of_perm {files : List String} (h : files.Perm prepared.paths) :
    prepared.Accounts top settings (files.map (prepared.process top settings)) := by
  have hperm := h.map (prepared.process top settings)
  refine ⟨hperm, (models_append_failures_perm _).trans ((hperm.map resultPath).trans ?_)⟩
  rw [List.map_map]
  apply List.Perm.of_eq
  apply List.map_congr_left
  intro path _
  exact resultPath_processFile _ _ _ _ _

/-- Settings that pass their check give a run at least one worker. -/
theorem Prepared.workers_pos (hsettings : settings.check.result = .ok settings)
    (hprocessors : 0 < processors) : 0 < prepared.workers settings processors := by
  have hwanted : 0 < settings.maxWorkers.getD (min processors 8) := by
    cases hworkers : settings.maxWorkers with
    | none =>
        rw [Option.getD_none]
        omega
    | some count =>
        rw [Option.getD_some]
        refine Int.not_le.mp fun hcount => ?_
        have hrefused : settings.checkRest = .error .workersNotPositive := by
          rw [Settings.checkRest, hworkers]
          simp [hcount]
        unfold Settings.check at hsettings
        split at hsettings
        · cases hsettings
        · rw [hrefused] at hsettings
          cases hsettings
  unfold workers Settings.workers
  simp only
  omega

end ProjectRun

open ProjectRun

/-- Whatever the order in which files are submitted, processed and collected, and whenever the
signal is set, a run comes to an end.  It was cancelled, after collecting no more results than it
had submitted files, or it joins results that account for all its files.  The answer of a run that
takes turns is one of these answers. -/
theorem extractProject_cancellation {top : FileTree} {root : String} {settings : Settings}
    {processors : Int} {runId extractedAt : String} {prepared : Prepared}
    (hprepared : prepare top root settings = .ok prepared)
    (hsettings : settings.check.result = .ok settings) (hprocessors : 0 < processors) :
    (∀ pool, Reaches (prepared.workers settings processors) (.start prepared.paths) pool →
      (∀ outcome, pool.phase = .stopped outcome →
        (pool.cancelled = true ∧ pool.collected.length ≤ pool.submitted ∧
          prepared.answer top settings runId extractedAt outcome =
            .error (.run (.cancelled pool.collected.length))) ∨
        ∃ results, prepared.Accounts top settings results ∧
          prepared.answer top settings runId extractedAt outcome =
            join prepared.project prepared.dependencies runId extractedAt results) ∧
      ((∀ outcome, pool.phase ≠ .stopped outcome) →
        ∃ pool', Step (prepared.workers settings processors) pool pool')) ∧
    (WellFounded fun pool' pool : Pool String =>
      Step (prepared.workers settings processors) pool pool') ∧
    ∀ signal : Signal, signal.Stays →
      ∃ pool outcome,
        Reaches (prepared.workers settings processors) (.start prepared.paths) pool ∧
        pool.phase = .stopped outcome ∧
        extractProject top root settings signal runId extractedAt =
          prepared.answer top settings runId extractedAt outcome := by
  have hworkers := @Prepared.workers_pos _ _ prepared hsettings hprocessors
  refine ⟨?_, wellFounded_step _, ?_⟩
  · intro pool hreaches
    refine ⟨?_, exists_step hworkers pool⟩
    intro outcome hstopped
    rcases hreaches.sound.stopped hstopped with ⟨hcancelled, rfl, hle⟩ | ⟨rfl, hperm⟩
    · exact .inl ⟨hcancelled, hle, rfl⟩
    · exact .inr ⟨_, Prepared.accounts_of_perm hperm, rfl⟩
  · intro signal hsignal
    obtain ⟨pool, hreaches, hstopped⟩ := reaches_results hworkers hsignal prepared.paths
    refine ⟨pool, _, hreaches, hstopped, ?_⟩
    rw [extractProject_eq, hprepared]
    rfl

namespace Sample

/-- The sample project is prepared with its two files. -/
theorem prepare_top :
    prepare top "/p" settings = .ok
      ⟨"/p", ["/p/a.rs", "/p/b.rs"], Manifest.projectInfo "/p" none, ⟨[], [], []⟩⟩ := by
  have habsolute : PosixPath.absolute "/p" = "/p" := by decide
  have hdirectory : top.isDirectoryAt "/p" = true := rfl
  have hmanifest : Manifest.load top "/p" = .ok none := rfl
  simp only [prepare, habsolute, hdirectory, sourceFiles_top, hmanifest, Except.mapError,
    Bool.not_true, Bool.false_eq_true, if_false, bind, Except.bind, List.isEmpty_cons]
  rfl

end Sample

/-- The sample project, when the signal is set after the first result is collected. -/
theorem extractProject_cancellation_sample :
    ∃ pool : Pool String, Reaches 2 (.start ["/p/a.rs", "/p/b.rs"]) pool ∧
      pool.cancelled = true ∧ pool.collected.length = 1 ∧ pool.collected.length ≤ pool.submitted ∧
      extractProject Sample.top "/p" Sample.settings (setAfter 2) "run" "now" =
        .error (.run (.cancelled 1)) := by
  have hsettings : Sample.settings.check.result = .ok Sample.settings := by
    simp [Settings.check, Settings.checkRest, Settings.sharedPatterns, Sample.settings,
      Settings.default]
  have hrun : extractProject Sample.top "/p" Sample.settings (setAfter 2) "run" "now" =
      .error (.run (.cancelled 1)) := by
    rw [extractProject_eq, Sample.prepare_top]
    rfl
  have hstays : (setAfter 2).Stays := by
    intro look later hle hset
    simp only [setAfter, decide_eq_true_eq] at hset ⊢
    omega
  obtain ⟨hstop, -, hsignal⟩ := @extractProject_cancellation _ _ _ 2 "run" "now" _
    Sample.prepare_top hsettings (by decide)
  obtain ⟨pool, outcome, hreaches, hstopped, hanswer⟩ := hsignal (setAfter 2) hstays
  rw [hrun] at hanswer
  rcases (hstop pool hreaches).1 outcome hstopped with ⟨hcancelled, hle, hcount⟩ |
    ⟨results, -, hjoin⟩
  · rw [← hanswer] at hcount
    refine ⟨pool, hreaches, hcancelled, ?_, hle, hrun⟩
    simp at hcount
    omega
  · rw [← hanswer, join] at hjoin
    split at hjoin <;> cases hjoin

end CrateAtlas
