import CrateAtlas.Proofs.Cancellation
import Mathlib.Data.List.Nodup

/-!
# Completion order

Workers finish in any order.  Files and failures are sorted by path before they are joined, and no
two of them share a path, so that nothing of the order is left in the model.

Main results:

- Theorem {lit}`mergeSort_eq_of_perm`: sorting by distinct keys forgets the order.
- Theorem {lit}`ProjectModel.aggregate_perm`: so does joining files with distinct paths.
- Theorem {lit}`extractProject_completionOrder`: the answers of all interleavings of a run, with
  any number of workers, are the same unless the run is cancelled.
-/

namespace CrateAtlas

/-! ## Joining -/

/-- Sorting by keys puts them in increasing order. -/
theorem pairwise_mergeSort_key {α : Type} (key : α → String) (xs : List α) :
    (xs.mergeSort fun a b => key a ≤ key b).Pairwise fun a b => key a ≤ key b := by
  have hpairwise := @List.pairwise_mergeSort α (fun a b => key a ≤ key b)
    (fun a b c hab hbc => by
      simp only [decide_eq_true_eq] at hab hbc ⊢
      exact String.le_trans hab hbc)
    (fun a b => by simpa using String.le_total (key a) (key b)) xs
  simpa using hpairwise

/-- Sorting by distinct keys forgets the order. -/
theorem mergeSort_eq_of_perm {α : Type} {key : α → String} {xs ys : List α} (h : xs.Perm ys)
    (hkeys : (xs.map key).Nodup) :
    (xs.mergeSort fun a b => key a ≤ key b) = ys.mergeSort fun a b => key a ≤ key b := by
  have hperm : ∀ zs : List α, (zs.mergeSort fun a b => key a ≤ key b).Perm zs :=
    fun zs => List.mergeSort_perm zs _
  refine List.Perm.eq_of_pairwise ?_ (pairwise_mergeSort_key key xs) (pairwise_mergeSort_key key ys)
    ((hperm xs).trans (h.trans (hperm ys).symm))
  -- Two members that are below each other have the same key, and no two members share one.
  intro a b ha hb hab hba
  exact List.inj_on_of_nodup_map hkeys ((hperm xs).mem_iff.mp ha)
    (h.mem_iff.mpr ((hperm ys).mem_iff.mp hb)) (String.le_antisymm hab hba)

theorem FailureReport.build_perm (successful : Int) {failures failures' : List FileFailure}
    (h : failures.Perm failures') (hpaths : (failures.map FileFailure.path).Nodup) :
    build successful failures = build successful failures' := by
  rw [build, build, mergeSort_eq_of_perm h hpaths]

namespace ProjectModel

/-- Joining files and failures with distinct paths forgets their order. -/
theorem aggregate_perm (project : ProjectInfo) (dependencies : Dependencies)
    (runId extractedAt : String) {files files' : List FileModel}
    {failures failures' : List FileFailure} (hfiles : files.Perm files')
    (hfailures : failures.Perm failures') (hpaths : (files.map FileModel.relativePath).Nodup)
    (hfailed : (failures.map FileFailure.path).Nodup) :
    aggregate project files failures dependencies runId extractedAt =
      aggregate project files' failures' dependencies runId extractedAt := by
  have hordered : ordered files = ordered files' := mergeSort_eq_of_perm hfiles hpaths
  unfold aggregate
  simp only [hordered, FailureReport.build_perm _ hfailures hfailed]

/-- The model of a project with another run and time. -/
def stamped (runId extractedAt : String) (model : ProjectModel) : ProjectModel :=
  { model with runId := runId, extractedAt := extractedAt }

end ProjectModel

namespace ProjectRun

variable {project : ProjectInfo} {dependencies : Dependencies} {runId extractedAt : String}

/-- Joining results that stand under distinct paths forgets their order. -/
theorem join_perm {results results' : List (Except FileFailure FileModel)}
    (h : results.Perm results') (hpaths : (results.map resultPath).Nodup) :
    join project dependencies runId extractedAt results =
      join project dependencies runId extractedAt results' := by
  have hmodels : (models results).Perm (models results') := h.filterMap _
  have hfailures : (failures results).Perm (failures results') := h.filterMap _
  have hshared := (models_append_failures_perm results).nodup_iff.mpr hpaths
  have hfailed := hshared.of_append_right
  unfold join
  rw [hmodels.isEmpty_eq, FailureReport.build_perm 0 hfailures hfailed,
    ProjectModel.aggregate_perm project dependencies runId extractedAt hmodels hfailures
      hshared.of_append_left hfailed]

theorem join_map_stamped (runId' extractedAt' : String)
    (results : List (Except FileFailure FileModel)) :
    (join project dependencies runId extractedAt results).map (.stamped runId' extractedAt') =
      join project dependencies runId' extractedAt' results := by
  unfold join
  split
  · rfl
  · rfl

/-! ## Runs -/

theorem handOut_never {α : Type} (files : List α) :
    ∀ look, (handOut never look files).1 = files := by
  induction files with
  | nil =>
      intro look
      rfl
  | cons file rest ih =>
      intro look
      simp [handOut, never, ih (look + 1)]

theorem collect_never {α : Type} (files : List α) :
    ∀ look, (collect never look files).1 = files := by
  induction files with
  | nil =>
      intro look
      rfl
  | cons file rest ih =>
      intro look
      simp [collect, never, ih (look + 1)]

/-- A run that is never cancelled has the results of all its files, in their order. -/
theorem results_never {α : Type} (files : List α) : results never id files = .ok files := by
  simp [results, handOut_never, collect_never, never]

/-- The answers that a run may give, over all interleavings. -/
inductive Extracts (processors : Int) (top : FileTree) (root : String) (settings : Settings)
    (runId extractedAt : String) : Except ProjectError ProjectModel → Prop where
  | unprepared {error} :
      prepare top root settings = .error error →
      Extracts processors top root settings runId extractedAt (.error error)
  | stopped {prepared pool outcome} :
      prepare top root settings = .ok prepared →
      Reaches (prepared.workers settings processors) (.start prepared.paths) pool →
      pool.phase = .stopped outcome →
      Extracts processors top root settings runId extractedAt
        (prepared.answer top settings runId extractedAt outcome)

variable {top : FileTree} {root : String} {settings : Settings} {prepared : Prepared}

/-- The files of a run are the source files of its project. -/
theorem sourceFiles_of_prepare (h : prepare top root settings = .ok prepared) :
    prepared.root = PosixPath.absolute root ∧
      Discovery.sourceFiles top settings (PosixPath.absolute root) = .ok prepared.paths := by
  unfold prepare at h
  simp only at h
  split at h
  · cases h
  · simp only [Outcome.bind_eq_ok_iff, Outcome.mapError_eq_ok_iff] at h
    obtain ⟨paths, hpaths, h⟩ := h
    split at h
    · cases h
    · simp only [Outcome.bind_eq_ok_iff, Outcome.mapError_eq_ok_iff] at h
      obtain ⟨manifest, -, h⟩ := h
      cases h
      exact ⟨rfl, hpaths⟩

/-- The results of the files of a run stand under distinct paths. -/
theorem nodup_resultPath (htop : top.WellFormed) (h : prepare top root settings = .ok prepared) :
    ((prepared.paths.map (prepared.process top settings)).map resultPath).Nodup := by
  obtain ⟨hroot, hpaths⟩ := sourceFiles_of_prepare h
  have hdistinct := (Discovery.sourceFiles_relative htop hpaths).1
  rw [List.map_map]
  convert hdistinct using 2
  funext path
  rw [Function.comp_apply, Prepared.process, resultPath_processFile, hroot]

/-- Finding the files of a project does not depend on the number of workers. -/
theorem prepare_maxWorkers (workers : Option Int) :
    prepare top root { settings with maxWorkers := workers } = prepare top root settings :=
  rfl

/-- Whatever the interleaving, a run is cancelled or answers as the run that takes turns. -/
theorem Extracts.cancelled_or_eq (htop : top.WellFormed) {processors : Int}
    {answer : Except ProjectError ProjectModel}
    (h : Extracts processors top root settings runId extractedAt answer) :
    (∃ completed, answer = .error (.run (.cancelled completed))) ∨
      answer = extractProject top root settings never runId extractedAt := by
  rw [extractProject_eq]
  cases h with
  | unprepared herror =>
      rw [herror]
      exact .inr rfl
  | @stopped prepared _ _ hprepared hreaches hstopped =>
      rcases hreaches.sound.stopped hstopped with ⟨-, rfl, -⟩ | ⟨rfl, hperm⟩
      · exact .inl ⟨_, rfl⟩
      · right
        rw [hprepared]
        simp only [bind, Except.bind, results_never, Prepared.answer]
        have hresults := hperm.map (prepared.process top settings)
        exact (join_perm hresults.symm (nodup_resultPath htop hprepared)).symm

end ProjectRun

/-- The run and the time of an answer are those of the run. -/
theorem extractProject_map_stamped {top : FileTree} {root : String} {settings : Settings}
    {signal : ProjectRun.Signal} {runId extractedAt : String} (runId' extractedAt' : String) :
    (extractProject top root settings signal runId extractedAt).map
        (.stamped runId' extractedAt') =
      extractProject top root settings signal runId' extractedAt' := by
  rw [ProjectRun.extractProject_eq, ProjectRun.extractProject_eq, Outcome.map_bind]
  apply Outcome.bind_congr
  intro prepared
  cases ProjectRun.results signal id prepared.paths with
  | error completed => rfl
  | ok collected => exact ProjectRun.join_map_stamped _ _ _

open ProjectRun

/-- Joining files and failures with distinct paths does not depend on their order.  Hence the
answers of a run are the same, up to the run and the time, whatever the order in which its workers
finish and however many there are, unless it is cancelled. -/
theorem extractProject_completionOrder :
    (∀ (project : ProjectInfo) (dependencies : Dependencies) (runId extractedAt : String)
      (files files' : List FileModel) (failures failures' : List FileFailure),
      (files.map FileModel.relativePath).Nodup → (failures.map FileFailure.path).Nodup →
      files.Perm files' → failures.Perm failures' →
      ProjectModel.aggregate project files failures dependencies runId extractedAt =
        ProjectModel.aggregate project files' failures' dependencies runId extractedAt) ∧
    ∀ (top : FileTree) (root : String) (settings : Settings), top.WellFormed →
      ∀ (processors : Int) (workers : Option Int) (runId extractedAt : String)
        (answer : Except ProjectError ProjectModel),
      Extracts processors top root { settings with maxWorkers := workers } runId extractedAt
        answer →
      (∃ completed, answer = .error (.run (.cancelled completed))) ∨
      ∀ runId' extractedAt', answer.map (.stamped runId' extractedAt') =
        extractProject top root settings never runId' extractedAt' := by
  constructor
  · intro project dependencies runId extractedAt files files' failures failures' hpaths hfailed
      hfiles hfailures
    exact ProjectModel.aggregate_perm _ _ _ _ hfiles hfailures hpaths hfailed
  · intro top root settings htop processors workers runId extractedAt answer hanswer
    rcases hanswer.cancelled_or_eq htop with hcancelled | rfl
    · exact .inl hcancelled
    · right
      intro runId' extractedAt'
      rw [extractProject_map_stamped, extractProject_eq, extractProject_eq, prepare_maxWorkers]
      rfl

namespace Sample

/-- Both files of the sample project are processed. -/
theorem exists_processFile :
    ∃ one two,
      processFile top "/p/a.rs" "/p" settings.maxFileSize settings.readOptions = .ok one ∧
      processFile top "/p/b.rs" "/p" settings.maxFileSize settings.readOptions = .ok two ∧
      one.relativePath = "a.rs" ∧ two.relativePath = "b.rs" := by
  have hone : (processFile top "/p/a.rs" "/p" settings.maxFileSize settings.readOptions).map
      FileModel.relativePath = .ok "a.rs" := by
    decide +kernel
  have htwo : (processFile top "/p/b.rs" "/p" settings.maxFileSize settings.readOptions).map
      FileModel.relativePath = .ok "b.rs" := by
    decide +kernel
  obtain ⟨one, hone, honePath⟩ := Outcome.map_eq_ok_iff.mp hone
  obtain ⟨two, htwo, htwoPath⟩ := Outcome.map_eq_ok_iff.mp htwo
  exact ⟨one, two, hone, htwo, honePath, htwoPath⟩

/-- Two workers that finish their files in the opposite order. -/
theorem reaches_swapped {α : Type} (a b : α) :
    Reaches 2 (.start [a, b]) ⟨[], [], [], [], [b, a], [], 2, false, .stopped (.ok [b, a])⟩ := by
  have hsubmitted : Reaches 2 (.start [a, b])
      ⟨[], [a, b], [], [], [], [], 2, false, .collecting⟩ :=
    .head (.submit rfl rfl rfl)
      (.head (.submit rfl rfl rfl) (.single (.submitNoMore rfl (.inl rfl))))
  have hfinished : Reaches 2 ⟨[], [a, b], [], [], [], [], 2, false, .collecting⟩
      ⟨[], [], [], [b, a], [], [], 2, false, .collecting⟩ :=
    .head (.start rfl (by simp)) (.head (.start rfl (by simp))
      (.head (@Step.finish _ _ _ [] b [a] rfl) (.single (@Step.finish _ _ _ [] a [] rfl))))
  have hcollected : Reaches 2 ⟨[], [], [], [b, a], [], [], 2, false, .collecting⟩
      ⟨[], [], [], [], [b, a], [], 2, false, .collecting⟩ :=
    .head (@Step.collect _ _ _ [] b [a] rfl rfl) (.head (.goOn rfl rfl)
      (.head (@Step.collect _ _ _ [] a [] rfl rfl) (.single (.goOn rfl rfl))))
  exact (hsubmitted.trans (hfinished.trans hcollected)).trans
    (.head (.collectNoMore rfl rfl rfl rfl) (.head (.leave rfl rfl rfl) (.single (.stop rfl))))

end Sample

/-- The sample project, with two workers of which the second one finishes first. -/
theorem extractProject_completionOrder_sample :
    ∃ one two : FileModel, one ≠ two ∧
      ProjectModel.aggregate (Manifest.projectInfo "/p" none) [one, two]
          [⟨"c.rs", "io_error", "c"⟩, ⟨"d.rs", "io_error", "d"⟩] ⟨[], [], []⟩ "run" "now" =
        ProjectModel.aggregate (Manifest.projectInfo "/p" none) [two, one]
          [⟨"d.rs", "io_error", "d"⟩, ⟨"c.rs", "io_error", "c"⟩] ⟨[], [], []⟩ "run" "now" ∧
      (join (Manifest.projectInfo "/p" none) ⟨[], [], []⟩ "other" "later" [.ok two, .ok one]).map
          (.stamped "run" "now") =
        extractProject Sample.top "/p" Sample.settings never "run" "now" := by
  obtain ⟨one, two, hone, htwo, honePath, htwoPath⟩ := Sample.exists_processFile
  obtain ⟨hjoin, hruns⟩ := extractProject_completionOrder
  refine ⟨one, two, ?_, ?_, ?_⟩
  · rintro rfl
    rw [honePath] at htwoPath
    exact absurd htwoPath (by decide)
  · exact hjoin _ _ _ _ _ _ _ _ (by simp [honePath, htwoPath]) (by decide)
      (.swap _ _ _) (.swap _ _ _)
  · have hanswer : Extracts 4 Sample.top "/p" { Sample.settings with maxWorkers := some 2 }
        "other" "later" (join (Manifest.projectInfo "/p" none) ⟨[], [], []⟩ "other" "later"
          [.ok two, .ok one]) := by
      have hprepared := (prepare_maxWorkers (some 2)).trans Sample.prepare_top
      rw [← hone, ← htwo]
      exact .stopped hprepared (Sample.reaches_swapped "/p/a.rs" "/p/b.rs") rfl
    rcases hruns _ _ _ Sample.wellFormed_top _ _ _ _ _ hanswer with ⟨completed, hcancelled⟩ | heq
    · simp [join, models] at hcancelled
    · exact heq "run" "now"

end CrateAtlas
