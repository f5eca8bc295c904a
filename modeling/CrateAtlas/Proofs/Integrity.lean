import CrateAtlas.Project.Run
import CrateAtlas.Proofs.Discovery
import CrateAtlas.Proofs.Forest
import CrateAtlas.Proofs.Resolution
import Mathlib.Data.List.Pairwise

/-!
# Referential integrity of projects

The model of a project names elements by identifier: as the makers and the targets of references,
and as the owners of namespaces.  In every model that a run returns these names belong to elements
of the model, and no two elements share one.

Main results:

- Theorem {lit}`aggregate_integrity`: joining sound files with distinct paths keeps integrity.
- Theorem {lit}`processFile_sound`: what is extracted from a file is sound.
- Theorem {lit}`extractProject_integrity`: integrity of the models that runs return.
-/

namespace CrateAtlas

/-! ## Joining files -/

/-- Referential integrity of the model of a project. -/
structure ProjectModel.Integrity (model : ProjectModel) : Prop where
  ids_nodup : (model.elements.map Element.id).Nodup
  references_eq : model.references = model.files.flatMap FileModel.references
  /-- The references of imports, and only they, are made by no element. -/
  origin_eq_none_iff : ∀ file ∈ model.files, ∀ reference ∈ file.references,
    reference.origin = none ↔ reference.type = .importReference
  /-- The others are made by the element of their file that is their scope. -/
  origin_mem : ∀ file ∈ model.files, ∀ reference ∈ file.references,
    reference.type ≠ .importReference →
      ∃ e ∈ file.elements, reference.origin = some e.id ∧ e.qualifiedName = reference.scope
  target_mem : ∀ reference ∈ model.references, ∀ id, reference.target = some id →
    ∃ e ∈ model.elements, e.id = id
  /-- There is one namespace for each element, in the order of the elements. -/
  namespaces_eq : model.namespaces.map Namespace.elementId = model.elements.map Element.id

namespace ProjectModel

variable {files : List FileModel}

theorem ordered_perm (files : List FileModel) : (ordered files).Perm files :=
  List.mergeSort_perm files _

/-- Sound files with distinct paths in which no separator occurs have distinct identifiers. -/
theorem nodup_flatMap_ids (hsound : ∀ file ∈ files, file.Sound)
    (hpaths : (files.map FileModel.relativePath).Nodup)
    (hseparable : ∀ file ∈ files, ElementId.Separable file.relativePath) :
    (files.flatMap FileModel.ids).Nodup := by
  rw [List.nodup_flatMap]
  constructor
  · intro file hfile
    exact Declaration.nodup_of_id_eq (hsound file hfile).id_eq
  · rw [List.Nodup, List.pairwise_map] at hpaths
    refine hpaths.imp_of_mem ?_
    intro file other hfile hother hne id hid hid'
    obtain ⟨e, he, rfl⟩ := List.mem_map.mp hid
    obtain ⟨e', he', heq⟩ := List.mem_map.mp hid'
    obtain ⟨i, hi⟩ := List.mem_iff_getElem?.mp he
    obtain ⟨j, hj⟩ := List.mem_iff_getElem?.mp he'
    rw [(hsound file hfile).id_eq i e hi, (hsound other hother).id_eq j e' hj] at heq
    exact hne (ElementId.filePath_eq_of_render_eq (hseparable other hother)
      (hseparable file hfile) heq).symm

theorem elements_aggregate (project : ProjectInfo) (files : List FileModel)
    (failures : List FileFailure) (dependencies : Dependencies) (runId extractedAt : String) :
    (aggregate project files failures dependencies runId extractedAt).elements.map Element.id =
      (ordered files).flatMap FileModel.ids := by
  show (((ordered files).map _).flatMap FileModel.elements).map Element.id = _
  rw [List.flatMap_map, List.map_flatMap]
  rfl

/-- Files with distinct paths give one namespace for each element, in the order of the elements. -/
theorem namespaces_aggregate (project : ProjectInfo) (failures : List FileFailure)
    (dependencies : Dependencies) (runId extractedAt : String)
    (hpaths : (files.map FileModel.relativePath).Nodup) :
    (aggregate project files failures dependencies runId extractedAt).namespaces.map
        Namespace.elementId =
      (aggregate project files failures dependencies runId extractedAt).elements.map
        Element.id := by
  have hpaths' : ((ordered files).map FileModel.relativePath).Nodup :=
    ((ordered_perm files).map _).nodup_iff.mpr hpaths
  rw [elements_aggregate]
  show ((Resolver.ofFiles (ordered files)).namespaces).map _ = _
  rw [Resolver.namespaces, Resolver.ofFiles_files hpaths', List.map_flatMap]
  apply List.flatMap_congr
  intro file _
  rw [List.map_map]
  rfl

/-- Joining sound files with distinct paths keeps integrity. -/
theorem aggregate_integrity (project : ProjectInfo) (failures : List FileFailure)
    (dependencies : Dependencies) (runId extractedAt : String)
    (hsound : ∀ file ∈ files, file.Sound)
    (hpaths : (files.map FileModel.relativePath).Nodup)
    (hseparable : ∀ file ∈ files, ElementId.Separable file.relativePath) :
    (aggregate project files failures dependencies runId extractedAt).Integrity := by
  have hperm := ordered_perm files
  have hsound' : ∀ file ∈ ordered files, file.Sound :=
    fun file hfile => hsound file (hperm.mem_iff.mp hfile)
  have hseparable' : ∀ file ∈ ordered files, ElementId.Separable file.relativePath :=
    fun file hfile => hseparable file (hperm.mem_iff.mp hfile)
  have hpaths' : ((ordered files).map FileModel.relativePath).Nodup :=
    (hperm.map _).nodup_iff.mpr hpaths
  have helements := elements_aggregate project files failures dependencies runId extractedAt
  refine ⟨?_, rfl, ?_, ?_, ?_, ?_⟩
  · rw [helements]
    exact nodup_flatMap_ids hsound' hpaths' hseparable'
  · intro file hfile
    obtain ⟨old, hold, rfl⟩ := List.mem_map.mp hfile
    exact ((hsound' old hold).resolveFile _).origin_eq_none_iff
  · intro file hfile reference hreference htype
    obtain ⟨old, hold, rfl⟩ := List.mem_map.mp hfile
    have hlaws := (hsound' old hold).resolveFile (Resolver.ofFiles (ordered files))
    cases horigin : reference.origin with
    | none => exact absurd ((hlaws.origin_eq_none_iff reference hreference).mp horigin) htype
    | some id =>
        obtain ⟨e, he, rfl, hscope⟩ := hlaws.origin_mem reference hreference id horigin
        exact ⟨e, he, rfl, hscope⟩
  · intro reference hreference id hid
    obtain ⟨file, hfile, hreference⟩ := List.mem_flatMap.mp hreference
    obtain ⟨old, hold, rfl⟩ := List.mem_map.mp hfile
    obtain ⟨unresolved, -, rfl⟩ := List.mem_map.mp hreference
    have hnames : old.names.Within ((ordered files).flatMap FileModel.ids) :=
      old.names_within.mono fun id hid => List.mem_flatMap.mpr ⟨old, hold, hid⟩
    have hmem := Resolver.resolve_mem (Resolver.ofFiles_canonical_within _) hnames hid
    rw [← helements] at hmem
    exact List.mem_map.mp hmem
  · exact namespaces_aggregate project failures dependencies runId extractedAt hpaths

end ProjectModel

/-! ## Runs -/

/-- What is extracted from a file is sound and stands under its path in the project. -/
theorem processFile_sound {top : FileTree} {path root : String} {limit : Int}
    {options : ReadOptions} {model : FileModel}
    (h : processFile top path root limit options = .ok model) :
    model.Sound ∧ model.relativePath = PosixPath.relative path root := by
  unfold processFile at h
  rw [Outcome.mapError_eq_ok_iff] at h
  unfold extractFile at h
  obtain ⟨parsed, -, hmodel⟩ := Outcome.bind_eq_ok_iff.mp h
  exact FileModel.sound_of_build (Outcome.mapError_eq_ok_iff.mp hmodel)

namespace ProjectRun

variable {α β : Type}

/-- Files are handed out in order, up to some point. -/
theorem handOut_sublist (signal : Signal) (files : List α) :
    ∀ look, (handOut signal look files).1.Sublist files := by
  induction files with
  | nil =>
      intro look
      rw [handOut]
  | cons file rest ih =>
      intro look
      rw [handOut]
      split
      · exact List.nil_sublist _
      · exact (ih (look + 1)).cons_cons file

/-- Results are collected in order, up to some point. -/
theorem collect_sublist (signal : Signal) (results : List β) :
    ∀ look, (collect signal look results).1.Sublist results := by
  induction results with
  | nil =>
      intro look
      rw [collect]
  | cons result rest ih =>
      intro look
      rw [collect]
      split
      · exact (List.nil_sublist _).cons_cons result
      · exact (ih (look + 1)).cons_cons result

/-- Whatever the signal does, the results of a run are results of its files, each at most once. -/
theorem results_sublist {signal : Signal} {process : α → β} {files : List α} {found : List β}
    (h : results signal (List.map process) files = .ok found) :
    found.Sublist (files.map process) := by
  unfold results at h
  simp only at h
  split at h
  · contradiction
  · cases h
    exact (collect_sublist _ _ _).trans ((handOut_sublist _ _ _).map process)

theorem mem_models {results : List (Except FileFailure FileModel)} {model : FileModel} :
    model ∈ models results ↔ .ok model ∈ results := by
  constructor
  · intro h
    obtain ⟨result, hresult, hmodel⟩ := List.mem_filterMap.mp h
    cases result with
    | error failure => contradiction
    | ok found =>
        cases hmodel
        exact hresult
  · intro h
    exact List.mem_filterMap.mpr ⟨_, h, rfl⟩

theorem models_sublist {results results' : List (Except FileFailure FileModel)}
    (h : results.Sublist results') : (models results).Sublist (models results') :=
  h.filterMap _

/-- The models of files stand under different paths if the files have different ones. -/
theorem models_relativePath_sublist {top : FileTree} {root : String} {limit : Int}
    {options : ReadOptions} (paths : List String) :
    ((models (paths.map fun path => processFile top path root limit options)).map
      FileModel.relativePath).Sublist (paths.map fun path => PosixPath.relative path root) := by
  induction paths with
  | nil => exact .slnil
  | cons path rest ih =>
      rw [List.map_cons, List.map_cons]
      cases hresult : processFile top path root limit options with
      | error failure => exact ih.cons _
      | ok model =>
          rw [← (processFile_sound hresult).2]
          exact ih.cons_cons _

end ProjectRun

/-- A run that returns a model has found source files and joined the models of some of them. -/
theorem exists_of_extractProject {top : FileTree} {root : String} {settings : Settings}
    {signal : ProjectRun.Signal} {runId extractedAt : String} {model : ProjectModel}
    (h : extractProject top root settings signal runId extractedAt = .ok model) :
    ∃ paths results project dependencies,
      Discovery.sourceFiles top settings (PosixPath.absolute root) = .ok paths ∧
      results.Sublist (paths.map fun path =>
        processFile top path (PosixPath.absolute root) settings.maxFileSize
          settings.readOptions) ∧
      model = .aggregate project (ProjectRun.models results) (ProjectRun.failures results)
        dependencies runId extractedAt := by
  unfold extractProject at h
  simp only at h
  split at h
  · cases h
  · simp only [Outcome.bind_eq_ok_iff, Outcome.mapError_eq_ok_iff] at h
    obtain ⟨paths, hpaths, h⟩ := h
    split at h
    · cases h
    · simp only [Outcome.bind_eq_ok_iff, Outcome.mapError_eq_ok_iff] at h
      obtain ⟨manifest, -, h⟩ := h
      split at h
      · cases h
      · rename_i results hresults
        unfold ProjectRun.join at h
        split at h
        · cases h
        · cases h
          exact ⟨paths, results, _, _, hpaths, ProjectRun.results_sublist hresults, rfl⟩

/-- In a model that a run returns no two elements share an identifier, references are made by
elements of their file and lead to elements of the model, and each element has its namespace;
the paths of its files must be free of the separator of identifiers. -/
theorem extractProject_integrity {top : FileTree} {root : String} {settings : Settings}
    {signal : ProjectRun.Signal} {runId extractedAt : String} {model : ProjectModel}
    (htop : top.WellFormed)
    (h : extractProject top root settings signal runId extractedAt = .ok model)
    (hpaths : ∀ file ∈ model.files, ¬ScopePath.separator <:+: file.relativePath.toList) :
    model.Integrity := by
  obtain ⟨paths, results, project, dependencies, hdiscovered, hsublist, rfl⟩ :=
    exists_of_extractProject h
  obtain ⟨hdistinct, hlast⟩ := Discovery.sourceFiles_relative htop hdiscovered
  have hfiles : ∀ file ∈ ProjectRun.models results, file.Sound ∧
      ∃ path ∈ paths, file.relativePath = PosixPath.relative path (PosixPath.absolute root) := by
    intro file hfile
    have hresult := hsublist.subset (ProjectRun.mem_models.mp hfile)
    obtain ⟨path, hpath, hprocessed⟩ := List.mem_map.mp hresult
    obtain ⟨hsound, hrelative⟩ := processFile_sound hprocessed
    exact ⟨hsound, path, hpath, hrelative⟩
  apply ProjectModel.aggregate_integrity
  · intro file hfile
    exact (hfiles file hfile).1
  · have hmodels := (ProjectRun.models_sublist hsublist).map FileModel.relativePath
    exact hdistinct.sublist (hmodels.trans (ProjectRun.models_relativePath_sublist paths))
  · intro file hfile
    obtain ⟨-, path, hpath, hrelative⟩ := hfiles file hfile
    refine ⟨?_, ?_⟩
    · -- The files of the model are those joined, up to the targets of their references.
      let resolver := Resolver.ofFiles (ProjectModel.ordered (ProjectRun.models results))
      have hmem := (ProjectModel.ordered_perm _).mem_iff.mpr hfile
      exact hpaths (resolver.resolveFile file) (List.mem_map_of_mem hmem)
    · rw [hrelative, hlast path hpath]
      decide

/-! ## A project of two files -/

namespace Sample

/-- A file that imports a function of the other one. -/
def userText : String :=
  "use crate::a::a::c;pub struct W;"

/-- The tree of that file. -/
def user : Node :=
  node "source_file" "" 0 32
    [node "use_declaration" "" 0 19 [node "scoped_identifier" "argument" 4 18 []],
      node "struct_item" "" 19 32
        [node "visibility_modifier" "" 19 22 [], node "type_identifier" "name" 30 31 []]]

/-- The entries of a project with two source files. -/
def entries : List (String × FileTree) :=
  [("a.rs", .file ⟨text.toUTF8.toList, root, none, false⟩),
    ("b.rs", .file ⟨userText.toUTF8.toList, user, none, false⟩)]

/-- The file tree in which the project stands. -/
def top : FileTree :=
  .directory [("p", .directory entries)]

/-- Settings that select the files of a directory. -/
def settings : Settings :=
  { Settings.default with selected := ["*.rs"], excluded := [] }

theorem wellFormed_top : top.WellFormed := by
  have hentries : (FileTree.directory entries).WellFormed := by
    refine .directory _ (by decide) ?_ ?_
    · simp only [entries, List.forall_mem_cons]
      exact ⟨⟨by decide, by decide, by decide, by decide⟩,
        ⟨by decide, by decide, by decide, by decide⟩, by simp⟩
    · simp only [entries, List.forall_mem_cons]
      exact ⟨.file _, .file _, by simp⟩
  refine .directory _ (by decide) ?_ ?_
  · simp only [List.forall_mem_singleton]
    exact ⟨by decide, by decide, by decide, by decide⟩
  · simpa using hentries

/-- Both files are found; their names are in order, so that sorting leaves them as they are. -/
theorem sourceFiles_top :
    Discovery.sourceFiles top settings "/p" = .ok ["/p/a.rs", "/p/b.rs"] := by
  have hlookup : (Discovery.Plan.of top settings false).top.lookup "/p" =
      .ok ⟨["p"], .directory entries, 40⟩ := rfl
  have hlist : Discovery.walkDirectory (.of top settings false) (FileTree.maxLinks + 1) 40 ["p"] []
      entries = .ok [["a.rs"], ["b.rs"]] := by
    rw [Discovery.walkDirectory, Discovery.classifyAll_eq_map, Discovery.settle,
      List.mergeSort_of_pairwise]
    · rfl
    · simp [entries]
  have hwalk : Discovery.walk (.of top settings false) "/p" =
      .ok ⟨["/p/a.rs", "/p/b.rs"], []⟩ := by
    rw [Discovery.walk, hlookup]
    simp only [hlist]
    rfl
  rw [Discovery.sourceFiles, hwalk, Except.map, List.mergeSort_of_pairwise]
  simp

end Sample

/-- The model of the sample project has integrity. -/
theorem extractProject_integrity_sample :
    ∃ model, extractProject Sample.top "/p" Sample.settings ProjectRun.never "run" "now" =
        .ok model ∧
      model.files.map FileModel.relativePath = ["a.rs", "b.rs"] ∧ model.Integrity := by
  have hone : (processFile Sample.top "/p/a.rs" "/p" Sample.settings.maxFileSize
      Sample.settings.readOptions).map FileModel.relativePath = .ok "a.rs" := by
    decide +kernel
  have htwo : (processFile Sample.top "/p/b.rs" "/p" Sample.settings.maxFileSize
      Sample.settings.readOptions).map FileModel.relativePath = .ok "b.rs" := by
    decide +kernel
  obtain ⟨one, hone, honePath⟩ := Outcome.map_eq_ok_iff.mp hone
  obtain ⟨two, htwo, htwoPath⟩ := Outcome.map_eq_ok_iff.mp htwo
  have hrun : extractProject Sample.top "/p" Sample.settings ProjectRun.never "run" "now" =
      .ok (.aggregate (Manifest.projectInfo "/p" none) [one, two] [] ⟨[], [], []⟩ "run" "now") := by
    have habsolute : PosixPath.absolute "/p" = "/p" := by decide
    have hdirectory : Sample.top.isDirectoryAt "/p" = true := rfl
    have hmanifest : Manifest.load Sample.top "/p" = .ok none := rfl
    have hresults : ProjectRun.results ProjectRun.never (List.map fun path =>
        processFile Sample.top path "/p" Sample.settings.maxFileSize Sample.settings.readOptions)
        ["/p/a.rs", "/p/b.rs"] = .ok [.ok one, .ok two] := by
      rw [← hone, ← htwo]
      rfl
    simp only [extractProject, habsolute, hdirectory, Sample.sourceFiles_top, hmanifest,
      Except.mapError, Bool.not_true, Bool.false_eq_true, if_false, bind, Except.bind,
      List.isEmpty_cons, hresults]
    rfl
  have hordered : ProjectModel.ordered [one, two] = [one, two] := by
    rw [ProjectModel.ordered, List.mergeSort_of_pairwise]
    simp [honePath, htwoPath]
  have hfiles : (ProjectModel.aggregate (Manifest.projectInfo "/p" none) [one, two] []
      ⟨[], [], []⟩ "run" "now").files.map FileModel.relativePath = ["a.rs", "b.rs"] := by
    show ((ProjectModel.ordered [one, two]).map _).map FileModel.relativePath = _
    rw [hordered, ← honePath, ← htwoPath]
    rfl
  refine ⟨_, hrun, hfiles, extractProject_integrity Sample.wellFormed_top hrun ?_⟩
  intro file hfile
  have hpath := List.mem_map_of_mem (f := FileModel.relativePath) hfile
  rw [hfiles] at hpath
  simp only [List.mem_cons, List.not_mem_nil, or_false] at hpath
  rcases hpath with hpath | hpath
  · rw [hpath]
    decide
  · rw [hpath]
    decide

end CrateAtlas
