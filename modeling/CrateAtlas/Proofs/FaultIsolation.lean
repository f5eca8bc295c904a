import CrateAtlas.Proofs.Lookup
import CrateAtlas.Proofs.RunErrors

/-!
# One more file that fails

A file that cannot be processed leaves no trace in the model of its project but in the failure
report.  Two runs are compared: one over a project, and one over the same project with one more
file, which is found and fails.  The directories on the way to the file may be new too.

The manifest is read from the same file tree.  If it is a link that leads nowhere, the new file or
its directories may be what it was missing.

Main results:

- Theorem {lit}`AddsFile.sourceFiles_perm`: the new file is found besides the old ones.
- Theorem {lit}`mergeSort_cons`: one more entry stands at its place in a sorted list.
- Theorem {lit}`extractProject_addsFailure`: the model of the second run is that of the first, up to
  the new failure, if no manifest has become readable.
- Theorem {lit}`extractProject_addsManifest`: the manifest may become readable by way of the
  directory of the new file.
-/

namespace CrateAtlas

open FileTree

/-! ## One more file -/

/-- A file tree holds what another one holds, one more file, and else at most new directories. -/
structure AddsFile (place : List String) (content : FileContent) (top top' : FileTree) :
    Prop where
  keeps : Keeps top top'
  absent : top.standsAt? place = none
  present : top'.standsAt? place = some (.file content)
  only : ∀ path found, top'.standsAt? path = some found → top.standsAt? path = none →
    path = place ∨ found = .directory

/-! ### Putting a file in a tree -/

theorem find?_putEntry (name other : String) (tree : FileTree)
    (entries : List (String × FileTree)) :
    ((putEntry name tree entries).find? fun entry => entry.1 == other) =
      if other = name then some (name, tree) else entries.find? fun entry => entry.1 == other := by
  induction entries with
  | nil =>
      by_cases h : other = name
      · simp [putEntry, h]
      · have hne : ¬name = other := fun heq => h heq.symm
        simp [putEntry, h, hne]
  | cons entry rest ih =>
      obtain ⟨first, old⟩ := entry
      by_cases h : other = name
      · subst h
        by_cases hfirst : first = other
        · simp [putEntry, hfirst]
        · simp [putEntry, hfirst, ih]
      · by_cases hfirst : first = name
        · have hne : ¬name = other := fun heq => h heq.symm
          simp [putEntry, hfirst, h, hne]
        · simp [putEntry, hfirst, ih, h, List.find?_cons]

/-- What stands at a path below an entry that may be missing. -/
def standsBelow? (old : Option FileTree) (path : List String) : Option FileTree.Stands :=
  old.bind fun tree => tree.standsAt? path

/-- The entry of a name, if there is one. -/
def entryOf? (entries : List (String × FileTree)) (name : String) : Option FileTree :=
  (entries.find? fun entry => entry.1 == name).map Prod.snd

theorem standsAt?_directory (entries : List (String × FileTree)) (other : String)
    (path : List String) :
    (directory entries).standsAt? (other :: path) = standsBelow? (entryOf? entries other) path := by
  rw [standsAt?_cons, entryOf?]
  cases entries.find? fun entry => entry.1 == other <;> rfl

/-- A missing entry is like an empty directory, but for the directory itself. -/
theorem exists_entries {old : Option FileTree}
    (hold : ∀ tree, old = some tree → tree.stands = .directory) :
    ∃ entries, old.getD empty = directory entries ∧ ∀ other path,
      standsBelow? old (other :: path) = standsBelow? (entryOf? entries other) path := by
  cases old with
  | none => exact ⟨[], rfl, fun _ _ => rfl⟩
  | some tree =>
      have htree := hold tree rfl
      cases tree with
      | file content => cases htree
      | link target => cases htree
      | directory entries => exact ⟨entries, rfl, standsAt?_directory entries⟩

/-- What stands below a directory after something was put under one of its names. -/
theorem standsAt?_put_cons (tree : FileTree) (name : String) (rest : List String)
    (entries : List (String × FileTree)) (other : String) (path : List String) :
    (put tree (name :: rest) (directory entries)).standsAt? (other :: path) =
      if other = name then (put tree rest ((entryOf? entries name).getD empty)).standsAt? path
      else standsBelow? (entryOf? entries other) path := by
  rw [put, standsAt?_cons, find?_putEntry]
  split
  · rfl
  · rw [← standsAt?_cons, standsAt?_directory]

/-- What stands in a tree after a file was put at a free place to which nothing but directories
leads: the file, what stood there, and directories. -/
theorem standsAt?_put {content : FileContent} {place : List String} :
    ∀ {old : Option FileTree}, standsBelow? old place = none →
      (∀ front back found, place = front ++ back → back ≠ [] →
        standsBelow? old front = some found → found = .directory) →
      (put (.file content) place (old.getD empty)).standsAt? place = some (.file content) ∧
      ∀ path, (∀ found, standsBelow? old path = some found →
          (put (.file content) place (old.getD empty)).standsAt? path = some found) ∧
        ∀ found, (put (.file content) place (old.getD empty)).standsAt? path = some found →
          standsBelow? old path = none → path = place ∨ found = .directory := by
  induction place with
  | nil =>
      intro old habsent _
      cases old with
      | some tree => cases habsent
      | none =>
          refine ⟨rfl, fun path => ⟨fun found h => (by cases h), fun found h _ => ?_⟩⟩
          cases path with
          | nil => exact .inl rfl
          | cons other rest => cases h
  | cons name rest ih =>
      intro old habsent hway
      have hold : ∀ tree, old = some tree → tree.stands = .directory := by
        rintro tree rfl
        exact hway [] (name :: rest) tree.stands rfl (by simp) rfl
      obtain ⟨entries, hentries, hbelow⟩ := exists_entries hold
      rw [hentries]
      -- The rest of the way starts at the entry of its first name.
      obtain ⟨hpresent, hrest⟩ := @ih (entryOf? entries name) (hbelow name rest ▸ habsent)
        fun front back found heq hback hfound => hway (name :: front) back found
          (by rw [heq]; rfl) hback ((hbelow name front).trans hfound)
      refine ⟨by rw [standsAt?_put_cons, if_pos rfl, hpresent], fun path => ?_⟩
      cases path with
      | nil =>
          refine ⟨fun found hfound => ?_, fun found hfound _ => .inr (Option.some.inj hfound).symm⟩
          rw [hway [] (name :: rest) found rfl (by simp) hfound]
          rfl
      | cons other path =>
          rw [standsAt?_put_cons, hbelow]
          split
          · rename_i hother
            subst hother
            exact ⟨(hrest path).1, fun found hfound hnone =>
              ((hrest path).2 found hfound hnone).imp (congrArg _) id⟩
          · refine ⟨fun found hfound => hfound, fun found hfound hnone => ?_⟩
            rw [hnone] at hfound
            cases hfound

/-- A file that is put at a free place, to which nothing but directories leads, is added. -/
theorem addsFile_put {content : FileContent} {place : List String} {top : FileTree}
    (habsent : top.standsAt? place = none)
    (hway : ∀ length < place.length, ∀ found,
      top.standsAt? (place.take length) = some found → found = .directory) :
    AddsFile place content top (put (.file content) place top) := by
  obtain ⟨hpresent, hrest⟩ := @standsAt?_put content place (some top) habsent
    fun front back found heq hback hfound => hway front.length
      (by simpa [heq] using List.length_pos_iff.mpr hback) found
      (by rw [heq, List.take_left]; exact hfound)
  exact ⟨fun path => (hrest path).1, habsent, hpresent, fun path => (hrest path).2⟩

theorem mem_putEntry {name : String} {tree : FileTree} {entries : List (String × FileTree)}
    {entry : String × FileTree} (h : entry ∈ putEntry name tree entries) :
    entry = (name, tree) ∨ entry ∈ entries := by
  induction entries with
  | nil => exact .inl (List.mem_singleton.mp h)
  | cons first rest ih =>
      obtain ⟨other, old⟩ := first
      rw [putEntry] at h
      split at h
      · exact (List.mem_cons.mp h).imp id (List.mem_cons_of_mem _)
      · rcases List.mem_cons.mp h with rfl | h
        · exact .inr List.mem_cons_self
        · exact (ih h).imp id (List.mem_cons_of_mem _)

theorem nodup_putEntry {name : String} {tree : FileTree} {entries : List (String × FileTree)}
    (h : (entries.map Prod.fst).Nodup) : ((putEntry name tree entries).map Prod.fst).Nodup := by
  induction entries with
  | nil => simp [putEntry]
  | cons first rest ih =>
      obtain ⟨other, old⟩ := first
      obtain ⟨hother, hrest⟩ := List.nodup_cons.mp h
      rw [putEntry]
      split
      · rename_i hsame
        subst hsame
        exact h
      · rename_i hne
        refine List.nodup_cons.mpr ⟨fun hmem => ?_, ih hrest⟩
        obtain ⟨entry, hentry, heq⟩ := List.mem_map.mp hmem
        rcases mem_putEntry hentry with rfl | hentry
        · exact hne heq.symm
        · exact hother (heq ▸ List.mem_map_of_mem hentry)

/-- What is put under proper names keeps a tree well formed. -/
theorem FileTree.WellFormed.put {tree : FileTree} (htree : tree.WellFormed) {place : List String} :
    ∀ {top : FileTree}, top.WellFormed → (∀ name ∈ place, PosixPath.IsName name) →
      (FileTree.put tree place top).WellFormed := by
  have hempty : empty.WellFormed := .directory [] (by simp) (by simp) (by simp)
  induction place with
  | nil =>
      intro top htop _
      cases top with
      | file content => exact htree
      | link target => exact htree
      | directory entries =>
          unfold FileTree.put
          split
          · exact htop
          · exact htree
  | cons name rest ih =>
      intro top htop hplace
      obtain ⟨hname, hrest⟩ := List.forall_mem_cons.mp hplace
      have hsingle : (FileTree.directory [(name, .put tree rest empty)]).WellFormed :=
        .directory _ (by simp) (by simpa using hname) (by simpa using ih hempty hrest)
      cases htop with
      | file content => exact hsingle
      | link target => exact hsingle
      | directory entries hnodup hnames hentries =>
          have hold : (((entries.find? fun entry => entry.1 == name).map Prod.snd).getD
              empty).WellFormed := by
            cases hfind : entries.find? fun entry => entry.1 == name with
            | none => exact hempty
            | some entry => exact hentries entry (List.mem_of_find?_eq_some hfind)
          refine .directory _ (nodup_putEntry hnodup) ?_ ?_
          · intro entry hentry
            rcases mem_putEntry hentry with rfl | hentry
            · exact hname
            · exact hnames entry hentry
          · intro entry hentry
            rcases mem_putEntry hentry with rfl | hentry
            · exact ih hold hrest
            · exact hentries entry hentry

namespace AddsFile

open Discovery

variable {place : List String} {content : FileContent} {top top' : FileTree}

/-- A file is the new one, or it was there before. -/
theorem eq_or_stands (h : AddsFile place content top top') {path : List String}
    {found : FileContent} (hfound : top'.standsAt? path = some (.file found)) :
    path = place ∨ top.standsAt? path = some (.file found) := by
  cases hold : top.standsAt? path with
  | none =>
      rcases h.only path _ hfound hold with heq | hdirectory
      · exact .inl heq
      · cases hdirectory
  | some old =>
      have hsame := (h.keeps path old hold).symm.trans hfound
      exact .inr hsame

section Found

variable {settings : Settings} {root path : String} {paths paths' : List String}

/-- The new file is found besides the old ones. -/
theorem sourceFiles_perm (h : AddsFile place content top top') (htop : top.WellFormed)
    (htop' : top'.WellFormed) (hroot : top.isDirectoryAt root = true)
    (hpaths : sourceFiles top settings root = .ok paths)
    (hpaths' : sourceFiles top' settings root = .ok paths') (hpath : path ∈ paths')
    (hnew : path ∉ paths) : paths'.Perm (path :: paths) := by
  obtain ⟨start, entries, hlookup, hstart⟩ := exists_of_isDirectoryAt hroot
  obtain ⟨tree, hlookup', hstands⟩ := h.keeps.lookup hlookup
  obtain ⟨entries', rfl⟩ : ∃ entries', tree = directory entries' := by
    rw [hstart] at hstands
    cases tree with
    | directory entries' => exact ⟨entries', rfl⟩
    | file content => cases hstands
    | link target => cases hstands
  have hmem := fun {path} => @mem_sourceFiles_iff _ htop _ _ _ _ _ hlookup hstart hpaths path
  have hmem' := fun {path} => @mem_sourceFiles_iff _ htop' _ _ _ _ _ hlookup' rfl hpaths' path
  -- Whatever is found anew stands at the place of the new file.
  have hplace : ∀ {names found}, Kept settings [] names →
      top'.standsAt? (start.path ++ names) = some (.file found) →
      PosixPath.below root (PosixPath.joinParts names) ∉ paths → start.path ++ names = place := by
    intro names found hkept hfound hnone
    rcases h.eq_or_stands hfound with heq | hold
    · exact heq
    · exact absurd (hmem.mpr ⟨names, rfl, hkept, found, hold⟩) hnone
  obtain ⟨names, rfl, hkept, found, hfound⟩ := hmem'.mp hpath
  have hnames := hplace hkept hfound hnew
  have hdistinct := (sourceFiles_relative htop hpaths).1.of_map
  have hdistinct' := (sourceFiles_relative htop' hpaths').1.of_map
  rw [List.perm_ext_iff_of_nodup hdistinct' (List.nodup_cons.mpr ⟨hnew, hdistinct⟩)]
  intro other
  rw [List.mem_cons]
  constructor
  · intro hother
    obtain ⟨names', rfl, hkept', found', hfound'⟩ := hmem'.mp hother
    by_cases hold : PosixPath.below root (PosixPath.joinParts names') ∈ paths
    · exact .inr hold
    · have hsame := (hplace hkept' hfound' hold).trans hnames.symm
      exact .inl (by rw [List.append_cancel_left hsame])
  · rintro (rfl | hother)
    · exact hpath
    · obtain ⟨names', rfl, hkept', found', hfound'⟩ := hmem.mp hother
      exact hmem'.mpr ⟨names', rfl, hkept', found', h.keeps _ _ hfound'⟩

/-- The files that were found before are read as before. -/
theorem fileAt_eq (h : AddsFile place content top top') (htop : top.WellFormed)
    (hroot : top.isDirectoryAt root = true) (hpaths : sourceFiles top settings root = .ok paths)
    (hpath : path ∈ paths) : top'.fileAt path = top.fileAt path := by
  obtain ⟨start, entries, hlookup, hstart⟩ := exists_of_isDirectoryAt hroot
  obtain ⟨tree, hlookup', -⟩ := h.keeps.lookup hlookup
  obtain ⟨names, rfl, hkept, found, hfound⟩ :=
    (mem_sourceFiles_iff htop hlookup hstart hpaths).mp hpath
  have hne : names ≠ [] := by
    rintro rfl
    cases hkept
  have hnames : ∀ name ∈ names, PosixPath.IsName name := fun name hname =>
    htop.isName_of_standsAt? hfound name (List.mem_append_right _ hname)
  rw [fileAt_below hlookup hne hnames hfound,
    fileAt_below hlookup' hne hnames (h.keeps _ _ hfound)]

end Found

end AddsFile

/-! ## Sorting -/

/-- One more entry stands at its place in a list that is sorted by distinct keys. -/
theorem mergeSort_cons {α : Type} {key : α → String} {x : α} {xs : List α}
    (hkeys : ((x :: xs).map key).Nodup) :
    ∃ before after, (xs.mergeSort fun a b => key a ≤ key b) = before ++ after ∧
      ((x :: xs).mergeSort fun a b => key a ≤ key b) = before ++ x :: after ∧
      (∀ y ∈ before, key y < key x) ∧ ∀ y ∈ after, key x < key y := by
  have hperm := List.mergeSort_perm (x :: xs) fun a b => decide (key a ≤ key b)
  obtain ⟨before, after, hsplit⟩ := List.append_of_mem (hperm.mem_iff.mpr List.mem_cons_self)
  have hsorted := pairwise_mergeSort_key key (x :: xs)
  have hdistinct := (hperm.map key).nodup_iff.mpr hkeys
  rw [hsplit] at hperm hsorted hdistinct
  have hstrict : (before ++ x :: after).Pairwise fun a b => key a < key b :=
    (hsorted.and (List.pairwise_map.mp hdistinct)).imp fun {a b} hab =>
      Decidable.byContradiction fun hlt => hab.2 (String.le_antisymm hab.1 (String.not_lt.mp hlt))
  obtain ⟨-, hafter, hbefore⟩ := List.pairwise_append.mp hstrict
  have hrest : (before ++ after).Perm xs := List.Perm.cons_inv (List.perm_middle.symm.trans hperm)
  refine ⟨before, after, ?_, hsplit, fun y hy => hbefore y hy x List.mem_cons_self,
    (List.pairwise_cons.mp hafter).1⟩
  rw [← mergeSort_eq_of_perm hrest ((hrest.map key).nodup_iff.mpr (List.nodup_cons.mp hkeys).2)]
  refine List.mergeSort_of_pairwise ?_
  simpa using hsorted.sublist ((List.sublist_cons_self x after).append_left before)

/-! ## One more failure -/

/-- The report of a run with one more failure, at its place in the order of paths. -/
def FailureReport.Gains (failure : FileFailure) (report report' : FailureReport) : Prop :=
  ∃ before after, report.failures = before ++ after ∧
    (∀ other ∈ before, other.path < failure.path) ∧
    (∀ other ∈ after, failure.path < other.path) ∧
    report' = ⟨report.successful, report.failed + 1, report.total + 1, before ++ failure :: after⟩

theorem FailureReport.build_gains (successful : Int) {failure : FileFailure}
    {failures : List FileFailure} (hpaths : ((failure :: failures).map FileFailure.path).Nodup) :
    (build successful failures).Gains failure (build successful (failure :: failures)) := by
  obtain ⟨before, after, hold, hnew, hbefore, hafter⟩ := mergeSort_cons hpaths
  refine ⟨before, after, hold, hbefore, hafter, ?_⟩
  unfold build
  simp only [hold, hnew, List.length_append, List.length_cons, mk.injEq, and_true, true_and]
  constructor <;> omega

/-- What is made of a file depends on the file tree only through its content. -/
theorem processFile_congr {top top' : FileTree} {path : String}
    (h : top'.fileAt path = top.fileAt path) (root : String) (limit : Int)
    (options : ReadOptions) :
    processFile top' path root limit options = processFile top path root limit options := by
  simp only [processFile, extractFile, ParsedFile.read, h]

namespace ProjectRun

/-- A failure among the results changes nothing but the report. -/
theorem join_failure {project : ProjectInfo} {dependencies : Dependencies}
    {runId extractedAt : String} {results : List (Except FileFailure FileModel)}
    {failure : FileFailure} {model : ProjectModel}
    (hdistinct : ((.error failure :: results).map resultPath).Nodup)
    (h : join project dependencies runId extractedAt results = .ok model) :
    ∃ report, model.failures.Gains failure report ∧
      join project dependencies runId extractedAt (.error failure :: results) =
        .ok { model with failures := report } := by
  have hpaths : ((failures (.error failure :: results)).map FileFailure.path).Nodup :=
    ((models_append_failures_perm _).nodup_iff.mpr hdistinct).of_append_right
  unfold join at h ⊢
  split at h
  · cases h
  · rename_i hsome
    cases h
    exact ⟨_, FailureReport.build_gains _ hpaths, if_neg hsome⟩

/-- A manifest stays as it is, unless there was none and now there is one. -/
theorem load_keeps {top top' : FileTree} (hkeeps : Keeps top top') {root : String}
    (hmanifest : ∀ manifest, top'.fileAt (PosixPath.below root Manifest.fileName) = .ok manifest →
      ∃ manifest, top.fileAt (PosixPath.below root Manifest.fileName) = .ok manifest)
    {manifest : Option Document} (h : Manifest.load top root = .ok manifest) :
    Manifest.load top' root = .ok manifest := by
  unfold Manifest.load at h ⊢
  cases hold : top.fileAt (PosixPath.below root Manifest.fileName) with
  | ok content =>
      rw [hold] at h
      rw [hkeeps.fileAt hold]
      exact h
  | error error =>
      rw [hold] at h
      cases hnew : top'.fileAt (PosixPath.below root Manifest.fileName) with
      | error error' => exact h
      | ok content =>
          obtain ⟨content', hcontent'⟩ := hmanifest content hnew
          rw [hold] at hcontent'
          cases hcontent'

/-- The new file is handed out besides the old ones, and everything else is prepared as before. -/
theorem prepare_addsFile {place : List String} {content : FileContent} {top top' : FileTree}
    (hadds : AddsFile place content top top') {root : String} {settings : Settings}
    {prepared : Prepared} (h : prepare top root settings = .ok prepared) {paths' : List String}
    (hpaths' : Discovery.sourceFiles top' settings (PosixPath.absolute root) = .ok paths')
    (hsome : paths' ≠ [])
    (hmanifest : ∀ manifest, top'.fileAt (PosixPath.below (PosixPath.absolute root)
        Manifest.fileName) = .ok manifest →
      ∃ manifest, top.fileAt (PosixPath.below (PosixPath.absolute root) Manifest.fileName) =
        .ok manifest) :
    top.isDirectoryAt (PosixPath.absolute root) = true ∧
      prepare top' root settings = .ok { prepared with paths := paths' } := by
  rw [prepare_eq] at h
  split at h
  · rename_i hroot
    split at h
    · cases h
    · cases h
    · split at h
      · cases h
      · rename_i manifest hload
        cases h
        refine ⟨hroot, ?_⟩
        rw [prepare_eq, if_pos (hadds.keeps.isDirectoryAt hroot), hpaths',
          load_keeps hadds.keeps hmanifest hload]
        cases paths' with
        | nil => exact absurd rfl hsome
        | cons first rest => rfl
  · cases h

end ProjectRun

open ProjectRun

/-- A new file that is found and cannot be processed changes the model of a project only in the
failure report, which gains that failure at its place, provided that a manifest that could not be
read has not become readable.  The run and its time are those of the second run. -/
theorem extractProject_addsFailure {place : List String} {content : FileContent}
    {top top' : FileTree} (htop : top.WellFormed) (htop' : top'.WellFormed)
    (hadds : AddsFile place content top top') {root : String} {settings : Settings}
    {runId extractedAt : String} {model : ProjectModel}
    (h : extractProject top root settings never runId extractedAt = .ok model)
    {paths' : List String}
    (hpaths' : Discovery.sourceFiles top' settings (PosixPath.absolute root) = .ok paths')
    {path : String} (hpath : path ∈ paths')
    (hnew : ∀ paths, Discovery.sourceFiles top settings (PosixPath.absolute root) = .ok paths →
      path ∉ paths)
    {failure : FileFailure}
    (hfails : processFile top' path (PosixPath.absolute root) settings.maxFileSize
      settings.readOptions = .error failure)
    (hmanifest : ∀ manifest, top'.fileAt (PosixPath.below (PosixPath.absolute root)
        Manifest.fileName) = .ok manifest →
      ∃ manifest, top.fileAt (PosixPath.below (PosixPath.absolute root) Manifest.fileName) =
        .ok manifest)
    (runId' extractedAt' : String) :
    ∃ report, model.failures.Gains failure report ∧
      extractProject top' root settings never runId' extractedAt' =
        .ok { model with failures := report, runId := runId', extractedAt := extractedAt' } := by
  rw [extractProject_eq] at h
  obtain ⟨prepared, hprepared, hanswer⟩ := Outcome.bind_eq_ok_iff.mp h
  rw [results_never] at hanswer
  obtain ⟨hroot, hpaths⟩ := sourceFiles_of_prepare hprepared
  obtain ⟨hdirectory, hprepared'⟩ := prepare_addsFile hadds hprepared hpaths'
    (List.ne_nil_of_mem hpath) hmanifest
  -- The results are those of the first run and the failure, in some order.
  have hresults : (paths'.map (prepared.process top' settings)).Perm
      (.error failure :: prepared.paths.map (prepared.process top settings)) := by
    have hfound := hadds.sourceFiles_perm htop htop' hdirectory hpaths hpaths' hpath
      (hnew _ hpaths)
    have hsame : prepared.paths.map (prepared.process top' settings) =
        prepared.paths.map (prepared.process top settings) := by
      apply List.map_congr_left
      intro old hold
      exact processFile_congr (hadds.fileAt_eq htop hdirectory hpaths hold) _ _ _
    have hfailure : prepared.process top' settings path = .error failure := by
      rw [Prepared.process, hroot, hfails]
    have hmapped := hfound.map (prepared.process top' settings)
    rwa [List.map_cons, hfailure, hsame] at hmapped
  have hdistinct := nodup_resultPath htop' hprepared'
  obtain ⟨report, hgains, hjoin⟩ :=
    join_failure (((hresults.map resultPath).nodup_iff).mp hdistinct) hanswer
  refine ⟨report, hgains, ?_⟩
  have hstamped :=
    @extractProject_map_stamped top' root settings never runId extractedAt runId' extractedAt'
  rw [← hstamped, extractProject_eq, hprepared']
  show (({ prepared with paths := paths' } : Prepared).answer top' settings runId extractedAt
    (results never id paths')).map _ = _
  rw [results_never]
  show (join prepared.project prepared.dependencies runId extractedAt
    (paths'.map (prepared.process top' settings))).map _ = _
  rw [join_perm hresults hdistinct, hjoin]
  rfl

/-! ## A new file in a project with a manifest -/

namespace Sample

/-- A file that is not UTF-8. -/
def broken : FileContent :=
  ⟨[0xff], root, none, false⟩

/-- A project with a manifest, and that file besides its own. -/
def withBroken : FileTree :=
  put (.file broken) ["p", "b.rs"] (withManifest [0x61])

/-- The failure of that file. -/
def brokenFailure : FileFailure :=
  ⟨"b.rs", "io_error",
    "IO error reading /p/b.rs: not valid UTF-8 (invalid start byte at byte 0)"⟩

theorem wellFormed_withManifest (bytes : Source) : (withManifest bytes).WellFormed := by
  refine .directory _ (by simp) (by simp; decide) ?_
  rw [List.forall_mem_singleton]
  refine .directory _ (by simp) ?_ ?_
  · simp only [List.forall_mem_cons]
    exact ⟨by decide, by decide, by simp⟩
  · simp only [List.forall_mem_cons]
    exact ⟨.file _, .file _, by simp⟩

theorem wellFormed_withBroken : withBroken.WellFormed :=
  .put (.file _) (wellFormed_withManifest _) (by decide)

theorem addsFile_withBroken :
    AddsFile ["p", "b.rs"] broken (withManifest [0x61]) withBroken := by
  refine addsFile_put rfl fun length hlength found hfound => ?_
  match length with
  | 0 | 1 => exact (Option.some.inj hfound).symm
  | _ + 2 => exact absurd hlength (by simp)

theorem sourceFiles_withBroken :
    Discovery.sourceFiles withBroken settings "/p" = .ok ["/p/a.rs", "/p/b.rs"] := by
  have hlookup : withBroken.lookup "/p" = .ok ⟨["p"], .directory
      [("Cargo.toml", .file ⟨[0x61], root, none, false⟩),
        ("a.rs", .file ⟨text.toUTF8.toList, root, none, false⟩), ("b.rs", .file broken)], 40⟩ := rfl
  have hkept : Discovery.keptFiles (.of .empty settings false) []
      [("Cargo.toml", .file false), ("a.rs", .file false), ("b.rs", .file false)] =
        .ok [["a.rs"], ["b.rs"]] := rfl
  exact Discovery.sourceFiles_flat_ok hlookup (by simp) (by simp) hkept
    (List.pairwise_pair.mpr (by decide))

/-- The project without the file is extracted. -/
theorem exists_extractProject_withManifest :
    ∃ model, extractProject (withManifest [0x61]) "/p" settings never "run" "now" = .ok model := by
  have hone : (processFile (withManifest [0x61]) "/p/a.rs" "/p" settings.maxFileSize
      settings.readOptions).map FileModel.relativePath = .ok "a.rs" := by
    decide +kernel
  obtain ⟨one, hone, -⟩ := Outcome.map_eq_ok_iff.mp hone
  have habsolute : PosixPath.absolute "/p" = "/p" := by decide
  have hload : Manifest.load (withManifest [0x61]) "/p" = .ok none := rfl
  obtain ⟨model, hmodel, -⟩ := exists_extractProject_of_processed "run" "now" habsolute rfl
    (sourceFiles_withManifest _) (by simp) hone hload
  exact ⟨model, hmodel⟩

end Sample

/-- The sample project with and without a file that is not UTF-8. -/
theorem extractProject_addsFailure_sample :
    ∃ model report, extractProject (Sample.withManifest [0x61]) "/p" Sample.settings never "run"
        "now" = .ok model ∧
      model.failures.Gains Sample.brokenFailure report ∧
      extractProject Sample.withBroken "/p" Sample.settings never "other" "later" =
        .ok { model with failures := report, runId := "other", extractedAt := "later" } := by
  obtain ⟨model, hmodel⟩ := Sample.exists_extractProject_withManifest
  have habsolute : PosixPath.absolute "/p" = "/p" := by decide
  have hpaths' := Sample.sourceFiles_withBroken
  have hnew : ∀ paths, Discovery.sourceFiles (Sample.withManifest [0x61]) Sample.settings "/p" =
      .ok paths → "/p/b.rs" ∉ paths := by
    intro paths hpaths
    rw [Sample.sourceFiles_withManifest] at hpaths
    cases hpaths
    simp
  have hfails : processFile Sample.withBroken "/p/b.rs" "/p" Sample.settings.maxFileSize
      Sample.settings.readOptions = .error Sample.brokenFailure := by
    rfl
  rw [← habsolute] at hpaths' hnew hfails
  obtain ⟨report, hgains, hrun⟩ := extractProject_addsFailure
    (Sample.wellFormed_withManifest _) Sample.wellFormed_withBroken Sample.addsFile_withBroken
    hmodel hpaths' (by simp) hnew hfails (fun _ _ => ⟨⟨[0x61], Sample.root, none, false⟩, rfl⟩) "other"
    "later"
  exact ⟨model, report, hmodel, hgains, hrun⟩

/-! ## A new file on the way to the manifest -/

namespace Sample

/-- An empty source file. -/
def blank : FileContent :=
  ⟨[], node "source_file" "" 0 0 [], none, false⟩

/-- A manifest that names its project. -/
def naming : FileContent :=
  ⟨"[package]\nname = \"x\"\n".toUTF8.toList, root,
    some (.mapping [("package", .mapping [("name", .text "x")])]), false⟩

/-- A project whose manifest is a link through a directory that is missing. -/
def detour : FileTree :=
  put (.link "src/new/../../meta/Cargo.toml") ["p", "Cargo.toml"]
    (put (.file naming) ["p", "meta", "Cargo.toml"]
      (put (.file blank) ["p", "src", "lib.rs"] empty))

/-- The same project with a file in that directory. -/
def throughNew : FileTree :=
  put (.file broken) ["p", "src", "new", "b.rs"] detour

theorem wellFormed_detour : detour.WellFormed :=
  .put (.link _) (.put (.file _) (.put (.file _) (.directory [] (by simp) (by simp) (by simp))
    (by decide)) (by decide)) (by decide)

theorem wellFormed_throughNew : throughNew.WellFormed :=
  .put (.file _) wellFormed_detour (by decide)

theorem addsFile_throughNew :
    AddsFile ["p", "src", "new", "b.rs"] broken detour throughNew := by
  refine addsFile_put rfl fun length hlength found hfound => ?_
  match length with
  | 0 | 1 | 2 => exact (Option.some.inj hfound).symm
  | 3 => cases hfound
  | _ + 4 => exact absurd hlength (by simp)

/-- The patterns that hold when nothing is said can be read. -/
theorem exists_compile_default :
    ∀ pattern ∈ Settings.default.selected ++ Settings.default.excluded,
      ∃ pieces, Glob.compile pattern = .ok pieces := by
  simp only [Settings.default, List.cons_append, List.nil_append, List.forall_mem_cons]
  exact ⟨⟨_, rfl⟩, ⟨_, rfl⟩, ⟨_, rfl⟩, by simp⟩

theorem sourceFiles_detour :
    ∃ paths, Discovery.sourceFiles detour .default "/p" = .ok paths ∧
      "/p/src/lib.rs" ∈ paths ∧ "/p/src/new/b.rs" ∉ paths := by
  have hroot : detour.isDirectoryAt "/p" = true := rfl
  obtain ⟨paths, hpaths⟩ := Discovery.exists_sourceFiles hroot exists_compile_default
  obtain ⟨entries, hlookup⟩ : ∃ entries, detour.lookup "/p" = .ok ⟨["p"], .directory entries, 40⟩ :=
    ⟨_, rfl⟩
  have hmem := fun {path} =>
    @Discovery.mem_sourceFiles_iff _ wellFormed_detour _ _ _ _ _ hlookup rfl hpaths path
  refine ⟨paths, hpaths, hmem.mpr ⟨["src", "lib.rs"], by decide, ⟨rfl, rfl⟩, blank, rfl⟩, ?_⟩
  -- Its names would lead to a file through a directory that is missing.
  intro hnew
  obtain ⟨names, heq, hkept, content, hstands⟩ := hmem.mp hnew
  have hne : names ≠ [] := by
    rintro rfl
    cases hkept
  have hnames : ∀ name ∈ names, PosixPath.IsName name := fun name hname =>
    wellFormed_detour.isName_of_standsAt? hstands name (List.mem_append_right _ hname)
  have hparts := congrArg PosixPath.absoluteParts heq
  rw [PosixPath.absoluteParts_below "/p" hne hnames,
    show PosixPath.absoluteParts "/p/src/new/b.rs" = ["p", "src", "new", "b.rs"] by decide,
    show PosixPath.absoluteParts "/p" = ["p"] by decide] at hparts
  obtain rfl : names = ["src", "new", "b.rs"] := by simpa using hparts.symm
  cases hstands

theorem sourceFiles_throughNew :
    ∃ paths, Discovery.sourceFiles throughNew .default "/p" = .ok paths ∧
      "/p/src/lib.rs" ∈ paths ∧ "/p/src/new/b.rs" ∈ paths := by
  have hroot : throughNew.isDirectoryAt "/p" = true := rfl
  obtain ⟨paths, hpaths⟩ := Discovery.exists_sourceFiles hroot exists_compile_default
  obtain ⟨entries, hlookup⟩ : ∃ entries, throughNew.lookup "/p" =
      .ok ⟨["p"], .directory entries, 40⟩ := ⟨_, rfl⟩
  have hmem := fun {path} =>
    @Discovery.mem_sourceFiles_iff _ wellFormed_throughNew _ _ _ _ _ hlookup rfl hpaths path
  exact ⟨paths, hpaths, hmem.mpr ⟨["src", "lib.rs"], by decide, ⟨rfl, rfl⟩, blank, rfl⟩,
    hmem.mpr ⟨["src", "new", "b.rs"], by decide, ⟨rfl, rfl, rfl⟩, broken, rfl⟩⟩

theorem load_throughNew : Manifest.load throughNew "/p" = .ok naming.document := by
  have hdecode : Text.Utf8.decode naming.bytes = .ok "[package]\nname = \"x\"\n" := by
    decide +kernel
  show (Text.Utf8.decode naming.bytes).map (fun _ => naming.document) = _
  rw [hdecode]
  rfl

end Sample

/-- A link to the manifest leads through the directory of the new file.  The file fails, and yet
the project has another name with it. -/
theorem extractProject_addsManifest :
    Sample.detour.WellFormed ∧ Sample.throughNew.WellFormed ∧
    AddsFile ["p", "src", "new", "b.rs"] Sample.broken Sample.detour Sample.throughNew ∧
    ∃ paths paths' failure model model',
      Discovery.sourceFiles Sample.detour .default "/p" = .ok paths ∧
      Discovery.sourceFiles Sample.throughNew .default "/p" = .ok paths' ∧
      "/p/src/new/b.rs" ∉ paths ∧ "/p/src/new/b.rs" ∈ paths' ∧
      processFile Sample.throughNew "/p/src/new/b.rs" "/p" Settings.default.maxFileSize
        Settings.default.readOptions = .error failure ∧
      extractProject Sample.detour "/p" .default never "run" "now" = .ok model ∧
      extractProject Sample.throughNew "/p" .default never "run" "now" = .ok model' ∧
      model.project.name = "p" ∧ model'.project.name = "x" := by
  have habsolute : PosixPath.absolute "/p" = "/p" := by decide
  have hadds := Sample.addsFile_throughNew
  have hroot : Sample.detour.isDirectoryAt "/p" = true := rfl
  obtain ⟨paths, hpaths, hlib, hnew⟩ := Sample.sourceFiles_detour
  obtain ⟨paths', hpaths', hlib', hfound⟩ := Sample.sourceFiles_throughNew
  have hone : (processFile Sample.detour "/p/src/lib.rs" "/p" Settings.default.maxFileSize
      Settings.default.readOptions).map FileModel.relativePath = .ok "src/lib.rs" := by
    decide +kernel
  obtain ⟨one, hone, -⟩ := Outcome.map_eq_ok_iff.mp hone
  have hone' : processFile Sample.throughNew "/p/src/lib.rs" "/p" Settings.default.maxFileSize
      Settings.default.readOptions = .ok one :=
    (processFile_congr (hadds.fileAt_eq Sample.wellFormed_detour hroot hpaths hlib) _ _ _).trans
      hone
  obtain ⟨model, hmodel, hproject⟩ := exists_extractProject_of_processed "run" "now" habsolute hroot
    hpaths hlib hone rfl
  obtain ⟨model', hmodel', hproject'⟩ := exists_extractProject_of_processed "run" "now" habsolute
    (hadds.keeps.isDirectoryAt hroot) hpaths' hlib' hone' Sample.load_throughNew
  refine ⟨Sample.wellFormed_detour, Sample.wellFormed_throughNew, hadds, paths, paths', _, model,
    model', hpaths, hpaths', hnew, hfound, rfl, hmodel, hmodel', ?_, ?_⟩
  · rw [hproject]
    decide
  · rw [hproject']
    decide

end CrateAtlas
