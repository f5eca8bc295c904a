import CrateAtlas.Proofs.CompletionOrder

/-!
# Resolution in a project refines resolution of a file

A file is resolved twice: against its own elements, and later against those of all files of its
project.  The second pass reads nothing of the first.  It changes targets only, it keeps each
target that the file finds by itself, and it never loses one.

Main results:

- Theorem {lit}`Resolver.resolve_eq`: the steps inside the file come before those in the crate.
- Theorem {lit}`Resolver.crateTarget?_isSome`: a larger crate answers whatever a smaller one does.
- Theorem {lit}`ProjectModel.aggregate_congr`: joining files ignores the targets stored in them.
- Theorem {lit}`extractProject_refinement`: each file of a project against the file alone.
-/

namespace CrateAtlas

/-! ## Local and crate-wide steps -/

namespace FileModel

/-- The scopes around a reference. -/
def scopeOf (model : FileModel) (reference : Reference) : String :=
  match reference.origin.bind model.element? with
  | some element => element.placement.modulePath
  | none => ""

/-- The module that encloses a reference. -/
def homeOf (model : FileModel) (reference : Reference) : String :=
  match reference.origin.bind model.element? with
  | some element => model.enclosingModule element
  | none => model.modulePath

/-- The element that a reference denotes by the steps that stay inside the file: a path from
{lit}`Self`, a qualified name, or a name in one of the scopes around the reference. -/
def localTarget? (model : FileModel) (reference : Reference) : Option String :=
  if reference.type = .importReference then none
  else
    match ScopePath.split reference.text with
    | [] => none
    | head :: rest =>
        let around := (ScopePath.split (model.scopeOf reference)).reverse
        if head = "Self" then lookupScoped model.names (ScopePath.join rest) around
        else
          match model.imported? head with
          | some _ => none
          | none =>
              Resolver.first (model.names.lookup reference.text) fun _ =>
                lookupScoped model.names reference.text around

end FileModel

namespace Resolver

variable {resolver larger : Resolver} {model : FileModel} {reference : Reference}

/-- The element that a reference denotes by the steps that look at the whole crate: an import, a
path from the enclosing module or the root, or a module of which everything is imported. -/
def crateTarget? (resolver : Resolver) (model : FileModel) (reference : Reference) :
    Option String :=
  if reference.type = .importReference then
    resolver.lookupPath reference.text model.modulePath
  else
    match ScopePath.split reference.text with
    | [] => none
    | head :: rest =>
        if head = "Self" then none
        else
          match model.imported? head with
          | some path => resolver.lookupPath (ScopePath.join (path :: rest)) model.modulePath
          | none =>
              first (resolver.lookupPath reference.text (model.homeOf reference)) fun _ =>
                if head = ScopePath.crateRoot ∨ ScopePath.isRelativeHead head then none
                else resolver.lookupGlobs model reference.text

theorem first_assoc (a b : Option String) (c : Unit → Option String) :
    (first a fun _ => first b c) = first (first a fun _ => b) c := by
  cases a with
  | none => rfl
  | some id => rfl

theorem none_first (b : Unit → Option String) : first none b = b () := rfl

theorem first_none (a : Option String) : (first a fun _ => none) = a := by
  cases a with
  | none => rfl
  | some id => rfl

/-- A reference is resolved inside its file first, and in the crate only if that fails. -/
theorem resolve_eq (resolver : Resolver) (model : FileModel) (reference : Reference) :
    resolver.resolve model reference =
      first (model.localTarget? reference) fun _ => resolver.crateTarget? model reference := by
  have hname : reference.type ≠ .importReference →
      resolver.resolve model reference =
        resolver.resolveName model (model.scopeOf reference) (model.homeOf reference)
          reference.text := by
    intro htype
    rw [resolve, if_neg htype, FileModel.scopeOf, FileModel.homeOf]
    cases reference.origin.bind model.element? with
    | none => rfl
    | some element => rfl
  by_cases htype : reference.type = .importReference
  · rw [resolve, FileModel.localTarget?, crateTarget?, if_pos htype, if_pos htype, if_pos htype]
    rfl
  · rw [hname htype, resolveName, FileModel.localTarget?, crateTarget?, if_neg htype,
      if_neg htype]
    cases ScopePath.split reference.text with
    | nil => rfl
    | cons head rest =>
        simp only
        split
        · rw [first_none]
        · cases model.imported? head with
          | some path => simp only [none_first]
          | none => simp only [first_assoc]

/-- What a file finds by itself is found with any resolver. -/
theorem resolve_of_localTarget? {id : String} (h : model.localTarget? reference = some id)
    (resolver : Resolver) : resolver.resolve model reference = some id := by
  rw [resolve_eq, h]
  rfl

/-! ## Larger crates -/

theorem get?_isSome_of_subset {table table' : NameTable} (hsub : table ⊆ table') {name : String}
    (h : (table.get? name).isSome) : (table'.get? name).isSome := by
  simp only [NameTable.get?, Option.isSome_map, List.find?_isSome] at h ⊢
  obtain ⟨entry, hentry, hname⟩ := h
  exact ⟨entry, hsub hentry, hname⟩

theorem lookup_isSome_iff {table : NameTable} {name : String} :
    (table.lookup name).isSome ↔
      (table.get? name).isSome ∨ (table.get? (ScopePath.withoutSegmentGenerics name)).isSome := by
  unfold NameTable.lookup
  split
  · rename_i id hid
    simp [hid]
  · rename_i hnone
    simp [hnone]

theorem lookupPath_isSome (hsub : resolver.canonical ⊆ larger.canonical) {path home : String}
    (h : (resolver.lookupPath path home).isSome) : (larger.lookupPath path home).isSome := by
  simp only [lookupPath, List.findSome?_isSome_iff] at h ⊢
  obtain ⟨candidate, hcandidate, hfound⟩ := h
  refine ⟨candidate, hcandidate, lookup_isSome_iff.mpr ?_⟩
  rcases lookup_isSome_iff.mp hfound with hfound | hfound
  · exact .inl (get?_isSome_of_subset hsub hfound)
  · exact .inr (get?_isSome_of_subset hsub hfound)

theorem lookupGlobs_isSome (hsub : resolver.canonical ⊆ larger.canonical) {text : String}
    (h : (resolver.lookupGlobs model text).isSome) :
    (larger.lookupGlobs model text).isSome := by
  simp only [lookupGlobs, List.findSome?_isSome_iff] at h ⊢
  obtain ⟨glob, hglob, hfound⟩ := h
  exact ⟨glob, hglob, lookupPath_isSome hsub hfound⟩

theorem first_isSome_iff {a : Option String} {b : Unit → Option String} :
    (first a b).isSome ↔ a.isSome ∨ (b ()).isSome := by
  cases a with
  | none => simp [first]
  | some id => simp [first]

/-- A larger crate answers whatever a smaller one does, though another element may come first. -/
theorem crateTarget?_isSome (hsub : resolver.canonical ⊆ larger.canonical)
    (h : (resolver.crateTarget? model reference).isSome) :
    (larger.crateTarget? model reference).isSome := by
  unfold crateTarget? at h ⊢
  split
  · rename_i himport
    rw [if_pos himport] at h
    exact lookupPath_isSome hsub h
  · rename_i himport
    rw [if_neg himport] at h
    cases hsplit : ScopePath.split reference.text with
    | nil => simp [hsplit] at h
    | cons head rest =>
        simp only [hsplit] at h ⊢
        split
        · rename_i hself
          simp [hself] at h
        · rename_i hself
          rw [if_neg hself] at h
          cases himported : model.imported? head with
          | some path =>
              simp only [himported] at h ⊢
              exact lookupPath_isSome hsub h
          | none =>
              simp only [himported, first_isSome_iff] at h ⊢
              rcases h with h | h
              · exact .inl (lookupPath_isSome hsub h)
              · right
                split at h
                · simp at h
                · rename_i hhead
                  rw [if_neg hhead]
                  exact lookupGlobs_isSome hsub h

/-- A larger crate resolves whatever a smaller one does. -/
theorem resolve_isSome (hsub : resolver.canonical ⊆ larger.canonical)
    (h : (resolver.resolve model reference).isSome) : (larger.resolve model reference).isSome := by
  rw [resolve_eq, first_isSome_iff] at h ⊢
  exact h.imp_right (crateTarget?_isSome hsub)

end Resolver

/-! ## Forgetting targets -/

/-- A file whose references have lost their targets. -/
def FileModel.withoutTargets (model : FileModel) : FileModel :=
  { model with
    references := model.references.map fun reference => { reference with target := none } }

namespace Resolver

variable {resolver : Resolver} {model model' : FileModel} {files : List FileModel}

@[simp] theorem resolveFile_withoutTargets (resolver : Resolver) (model : FileModel) :
    resolver.resolveFile model.withoutTargets = resolver.resolveFile model := by
  simp only [resolveFile, FileModel.withoutTargets, List.map_map]
  rfl

@[simp] theorem withoutTargets_resolveFile (resolver : Resolver) (model : FileModel) :
    (resolver.resolveFile model).withoutTargets = model.withoutTargets := by
  simp only [resolveFile, FileModel.withoutTargets, List.map_map]
  rfl

theorem register_withoutTargets (model : FileModel) (files : List FileModel) :
    register model.withoutTargets (files.map FileModel.withoutTargets) =
      (register model files).map FileModel.withoutTargets := by
  induction files with
  | nil => rfl
  | cons other rest ih =>
      rw [List.map_cons, register, register, ih, apply_ite (List.map FileModel.withoutTargets)]
      rfl

/-- The tables of a resolver are made from the elements of its files. -/
theorem ofFiles_withoutTargets (files : List FileModel) :
    ofFiles (files.map FileModel.withoutTargets) =
      ⟨(ofFiles files).files.map FileModel.withoutTargets, (ofFiles files).canonical⟩ := by
  have hfold : ∀ later known : List FileModel,
      (later.map FileModel.withoutTargets).foldl (fun known model => register model known)
          (known.map FileModel.withoutTargets) =
        (later.foldl (fun known model => register model known) known).map
          FileModel.withoutTargets := by
    intro later
    induction later with
    | nil =>
        intro known
        rfl
    | cons model rest ih =>
        intro known
        rw [List.map_cons, List.foldl_cons, List.foldl_cons, register_withoutTargets]
        exact ih (register model known)
  have hcanonical : (files.map FileModel.withoutTargets).flatMap FileModel.canonicalNames =
      files.flatMap FileModel.canonicalNames := by
    rw [List.flatMap_map]
    rfl
  rw [ofFiles, hcanonical, show ([] : List FileModel) = [].map FileModel.withoutTargets from rfl,
    hfold]
  rfl

/-- Namespaces are made from elements and imports. -/
theorem namespaces_withoutTargets (files : List FileModel) (canonical : NameTable) :
    namespaces ⟨files.map FileModel.withoutTargets, canonical⟩ = namespaces ⟨files, canonical⟩ := by
  simp only [namespaces, importPaths, List.flatMap_map]
  rfl

end Resolver

namespace ProjectModel

theorem ordered_withoutTargets (files : List FileModel) :
    ordered (files.map FileModel.withoutTargets) =
      (ordered files).map FileModel.withoutTargets := by
  unfold ordered
  rw [List.map_mergeSort]
  intro a _ b _
  rfl

theorem aggregate_withoutTargets (project : ProjectInfo) (files : List FileModel)
    (failures : List FileFailure) (dependencies : Dependencies) (runId extractedAt : String) :
    aggregate project (files.map FileModel.withoutTargets) failures dependencies runId
        extractedAt =
      aggregate project files failures dependencies runId extractedAt := by
  have hresolved : ((ordered files).map FileModel.withoutTargets).map
      (Resolver.resolveFile ⟨(Resolver.ofFiles (ordered files)).files.map FileModel.withoutTargets,
        (Resolver.ofFiles (ordered files)).canonical⟩) =
      (ordered files).map (Resolver.ofFiles (ordered files)).resolveFile := by
    rw [List.map_map]
    apply List.map_congr_left
    intro file _
    exact Resolver.resolveFile_withoutTargets _ _
  unfold aggregate
  simp only [ordered_withoutTargets, Resolver.ofFiles_withoutTargets, hresolved,
    Resolver.namespaces_withoutTargets]

/-- Joining files ignores the targets stored in them. -/
theorem aggregate_congr (project : ProjectInfo) {files files' : List FileModel}
    (failures : List FileFailure) (dependencies : Dependencies) (runId extractedAt : String)
    (h : files.map FileModel.withoutTargets = files'.map FileModel.withoutTargets) :
    aggregate project files failures dependencies runId extractedAt =
      aggregate project files' failures dependencies runId extractedAt := by
  rw [← aggregate_withoutTargets, h, aggregate_withoutTargets]

end ProjectModel

/-! ## Runs -/

/-- What is extracted from a file was resolved against the file alone. -/
theorem exists_of_extractFile {top : FileTree} {path root : String} {limit : Int}
    {options : ReadOptions} {file : FileModel}
    (h : extractFile top path root limit options = .ok file) :
    ∃ unresolved : FileModel, file = unresolved.resolveAlone := by
  unfold extractFile at h
  obtain ⟨parsed, -, hmodel⟩ := Outcome.bind_eq_ok_iff.mp h
  obtain ⟨unresolved, -, rfl⟩ := Outcome.map_eq_ok_iff.mp (Outcome.mapError_eq_ok_iff.mp hmodel)
  exact ⟨unresolved, rfl⟩

/-- How the same file looks when it is resolved alone and inside a project. -/
structure FileModel.Refines (alone inside : FileModel) : Prop where
  /-- Only targets differ. -/
  withoutTargets_eq : inside.withoutTargets = alone.withoutTargets
  /-- What is resolved alone is resolved inside. -/
  isResolved : List.Forall₂
    (fun reference reference' => reference.isResolved = true → reference'.isResolved = true)
    alone.references inside.references
  /-- What the file finds by itself is the target in both. -/
  target_eq : List.Forall₂
    (fun reference reference' => ∀ id, alone.localTarget? reference = some id →
      reference.target = some id ∧ reference'.target = some id)
    alone.references inside.references

/-- A resolver that knows the elements of a file refines what the file resolves alone. -/
theorem Resolver.resolveFile_refines (resolver : Resolver) (unresolved : FileModel)
    (hsub : unresolved.canonicalNames ⊆ resolver.canonical) :
    unresolved.resolveAlone.Refines (resolver.resolveFile unresolved.resolveAlone) := by
  have hsub' : (ofFiles [unresolved]).canonical ⊆ resolver.canonical := by
    simpa [ofFiles] using hsub
  -- The first pass has resolved each reference against the file, the targets set aside.
  have halone : ∀ reference ∈ unresolved.resolveAlone.references,
      reference.target = (ofFiles [unresolved]).resolve unresolved.resolveAlone reference := by
    intro reference hreference
    obtain ⟨old, -, rfl⟩ := List.mem_map.mp hreference
    rfl
  refine ⟨withoutTargets_resolveFile _ _, ?_, ?_⟩
  · rw [resolveFile, List.forall₂_map_right_iff, List.forall₂_same]
    intro reference hreference hresolved
    rw [Reference.isResolved, halone reference hreference] at hresolved
    exact resolve_isSome hsub' hresolved
  · rw [resolveFile, List.forall₂_map_right_iff, List.forall₂_same]
    intro reference hreference id hlocal
    rw [halone reference hreference]
    exact ⟨resolve_of_localTarget? hlocal _, resolve_of_localTarget? hlocal _⟩

open ProjectRun

/-- A run that returns a model, whatever the interleaving, has joined the results of all its
files. -/
theorem ProjectRun.Extracts.exists_of_ok {processors : Int} {top : FileTree} {root : String}
    {settings : Settings} {runId extractedAt : String} {model : ProjectModel}
    (h : Extracts processors top root settings runId extractedAt (.ok model)) :
    ∃ prepared results, prepare top root settings = .ok prepared ∧
      results.Perm (prepared.paths.map (prepared.process top settings)) ∧
      model = .aggregate prepared.project (models results) (failures results)
        prepared.dependencies runId extractedAt := by
  generalize hanswer : Except.ok model = answer at h
  cases h with
  | unprepared _ => contradiction
  | @stopped prepared _ _ hprepared hreaches hstopped =>
      rcases hreaches.sound.stopped hstopped with ⟨-, rfl, -⟩ | ⟨rfl, hperm⟩
      · contradiction
      · simp only [Prepared.answer, join] at hanswer
        split at hanswer
        · contradiction
        · cases hanswer
          exact ⟨prepared, _, hprepared, hperm.map _, rfl⟩

/-- In the model that a run returns, each file that was processed stands as it does when it is
extracted alone, up to the targets of its references: those found inside the file are the same, and
those that were resolved are resolved.  The targets stored in files are not read when they are
joined. -/
theorem extractProject_refinement {processors : Int} {top : FileTree} {root : String}
    {settings : Settings} {runId extractedAt : String} {model : ProjectModel}
    (htop : top.WellFormed)
    (h : Extracts processors top root settings runId extractedAt (.ok model)) :
    (∃ paths, Discovery.sourceFiles top settings (PosixPath.absolute root) = .ok paths ∧
      ∀ path ∈ paths, ∀ file,
        extractFile top path (PosixPath.absolute root) settings.maxFileSize
          settings.readOptions = .ok file →
        ∃ inside, model.file? file.relativePath = some inside ∧ file.Refines inside) ∧
    ∀ (project : ProjectInfo) (files files' : List FileModel) (failures : List FileFailure)
      (dependencies : Dependencies) (runId extractedAt : String),
      files.map FileModel.withoutTargets = files'.map FileModel.withoutTargets →
      ProjectModel.aggregate project files failures dependencies runId extractedAt =
        ProjectModel.aggregate project files' failures dependencies runId extractedAt := by
  refine ⟨?_, fun project files files' failures dependencies runId extractedAt =>
    ProjectModel.aggregate_congr project failures dependencies runId extractedAt⟩
  obtain ⟨prepared, results, hprepared, hperm, rfl⟩ := h.exists_of_ok
  obtain ⟨hroot, hpaths⟩ := sourceFiles_of_prepare hprepared
  refine ⟨prepared.paths, hpaths, ?_⟩
  intro path hpath file hfile
  have hmem : file ∈ ProjectModel.ordered (models results) := by
    rw [(ProjectModel.ordered_perm _).mem_iff, mem_models, hperm.mem_iff]
    refine List.mem_map.mpr ⟨path, hpath, ?_⟩
    rw [Prepared.process, hroot, processFile, hfile]
    rfl
  have hdistinct : ((ProjectModel.ordered (models results)).map FileModel.relativePath).Nodup := by
    have hresults := ((hperm.map resultPath).nodup_iff).mpr (nodup_resultPath htop hprepared)
    rw [((ProjectModel.ordered_perm _).map _).nodup_iff]
    exact ((models_append_failures_perm results).nodup_iff.mpr hresults).of_append_left
  let resolver := Resolver.ofFiles (ProjectModel.ordered (models results))
  refine ⟨resolver.resolveFile file, ?_, ?_⟩
  · show ((ProjectModel.ordered (models results)).map resolver.resolveFile).find? _ = _
    rw [List.find?_map]
    exact congrArg (Option.map resolver.resolveFile) (find?_eq_some_of_nodup hdistinct hmem)
  · obtain ⟨unresolved, rfl⟩ := exists_of_extractFile hfile
    refine resolver.resolveFile_refines unresolved ?_
    intro entry hentry
    exact List.mem_flatMap.mpr ⟨_, hmem, hentry⟩

/-- A run over the sample project returns a model, and its second file stands in it. -/
theorem extractProject_refinement_sample :
    ∃ model file inside,
      Extracts 4 Sample.top "/p" Sample.settings "run" "now" (.ok model) ∧
      extractFile Sample.top "/p/b.rs" "/p" Sample.settings.maxFileSize
        Sample.settings.readOptions = .ok file ∧
      model.file? "b.rs" = some inside ∧ file.Refines inside := by
  obtain ⟨one, two, hone, htwo, -, htwoPath⟩ := Sample.exists_processFile
  have hrun : Extracts 4 Sample.top "/p" Sample.settings "run" "now"
      (join (Manifest.projectInfo "/p" none) ⟨[], [], []⟩ "run" "now" [.ok two, .ok one]) := by
    rw [← hone, ← htwo]
    exact @Extracts.stopped 4 _ _ _ _ _ _ _ _ Sample.prepare_top
      (Sample.reaches_swapped "/p/a.rs" "/p/b.rs") rfl
  have hfile := Outcome.mapError_eq_ok_iff.mp htwo
  obtain ⟨⟨paths, hpaths, hfiles⟩, -⟩ := extractProject_refinement Sample.wellFormed_top hrun
  have habsolute : PosixPath.absolute "/p" = "/p" := by decide
  rw [habsolute, Sample.sourceFiles_top] at hpaths
  cases hpaths
  rw [habsolute] at hfiles
  obtain ⟨inside, hinside, hrefines⟩ := hfiles "/p/b.rs" (by simp) two hfile
  rw [htwoPath] at hinside
  exact ⟨_, two, inside, hrun, hfile, hinside, hrefines⟩

end CrateAtlas
