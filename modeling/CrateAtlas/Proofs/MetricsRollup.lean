import CrateAtlas.Proofs.ComplexityBounds
import CrateAtlas.Proofs.CountTables
import CrateAtlas.Proofs.Integrity
import CrateAtlas.Proofs.LineScanner

/-!
# Metrics of projects

The metrics of a project are added up over its files, from numbers that were added up over the
elements of each file.  Both levels can be taken in one: a project has the elements, the kinds and
the complexity of a single file with all the elements, and the lines of all the texts.

Main results:

- Theorem {lit}`largest_flatMap`: the largest number of all is the largest of the largest ones.
- Theorem {lit}`ProjectMetrics.rollup_perm`: the order of the files is forgotten.
- Theorem {lit}`ProjectMetrics.rollup_measured`: the metrics of a project in terms of its elements
  and texts.
- Theorem {lit}`extractProject_measured`: the metrics of the models that runs return.
-/

namespace CrateAtlas

variable {α : Type} {numbers numbers' : List Int}

/-! ## Largest numbers -/

theorem largest_eq (numbers : List Int) : largest numbers = numbers.max?.getD 0 := by
  cases numbers with
  | nil => rfl
  | cons n rest => rfl

theorem largest_perm (h : numbers.Perm numbers') : largest numbers = largest numbers' := by
  have hmax : numbers.max? = numbers'.max? := by
    ext m
    simp only [List.max?_eq_some_iff, h.mem_iff]
  rw [largest_eq, largest_eq, hmax]

/-- A number that is not negative may come first. -/
theorem largest_cons {n : Int} (h : 0 ≤ n) (rest : List Int) :
    largest (n :: rest) = max n (largest rest) := by
  cases rest with
  | nil => simp [largest, h]
  | cons m rest =>
      rw [largest, largest, List.foldl_cons, List.foldl_assoc]

theorem largest_nonneg (h : ∀ n ∈ numbers, 0 ≤ n) : 0 ≤ largest numbers := by
  cases numbers with
  | nil => exact le_refl 0
  | cons n rest =>
      have hn := h n List.mem_cons_self
      rw [largest_cons hn]
      omega

theorem largest_append (h : ∀ n ∈ numbers, 0 ≤ n) (h' : ∀ n ∈ numbers', 0 ≤ n) :
    largest (numbers ++ numbers') = max (largest numbers) (largest numbers') := by
  induction numbers with
  | nil =>
      have hnonneg := largest_nonneg h'
      rw [List.nil_append, show largest [] = 0 from rfl]
      omega
  | cons n rest ih =>
      have hn := h n List.mem_cons_self
      have hrest := ih fun m hm => h m (List.mem_cons_of_mem n hm)
      rw [List.cons_append, largest_cons hn, largest_cons hn, hrest, max_assoc]

/-- The largest number of several lists is the largest one of those that are largest in a list. -/
theorem largest_flatMap {f : α → List Int} {xs : List α} (h : ∀ x ∈ xs, ∀ n ∈ f x, 0 ≤ n) :
    largest (xs.flatMap f) = largest (xs.map fun x => largest (f x)) := by
  induction xs with
  | nil => rfl
  | cons x xs ih =>
      obtain ⟨hx, hxs⟩ := List.forall_mem_cons.mp h
      have hall : ∀ n ∈ xs.flatMap f, 0 ≤ n := by
        intro n hn
        obtain ⟨y, hy, hmem⟩ := List.mem_flatMap.mp hn
        exact hxs y hy n hmem
      rw [List.flatMap_cons, largest_append hx hall, ih hxs, List.map_cons,
        largest_cons (largest_nonneg hx)]

/-! ## Measuring all elements at once -/

/-- The complexities of the elements that have one. -/
def complexities (elements : List Element) : List Int :=
  elements.filterMap fun element => element.item.complexity

theorem complexities_flatMap (f : α → List Element) (xs : List α) :
    complexities (xs.flatMap f) = xs.flatMap fun x => complexities (f x) :=
  List.filterMap_flatMap ..

theorem complexities_nonneg {elements : List Element}
    (h : ∀ element ∈ elements, ∀ c, element.item.complexity = some c → 1 ≤ c) :
    ∀ c ∈ complexities elements, 0 ≤ c := by
  intro c hc
  obtain ⟨element, helement, hsome⟩ := List.mem_filterMap.mp hc
  have hone := h element helement c hsome
  omega

/-- The kinds of elements, by name. -/
def kindNames (elements : List Element) : List String :=
  elements.map fun element => element.kind.name

theorem kindNames_flatMap (f : α → List Element) (xs : List α) :
    kindNames (xs.flatMap f) = xs.flatMap fun x => kindNames (f x) :=
  List.map_flatMap ..

theorem FileMetrics.measure_kindCounts (text : String) (elements : List Element) :
    (measure text elements).kindCounts = .ofNames (kindNames elements) := by
  rw [Counts.ofNames, kindNames, List.map_map]
  rfl

/-- The metrics of a project count the same elements as those of a file do. -/
structure ProjectMetrics.CountsAs (project : ProjectMetrics) (file : FileMetrics) : Prop where
  totalElements_eq : project.totalElements = file.elementCount
  kindCounts_eq : project.kindCounts = file.kindCounts
  complexityTotal_eq : project.complexityTotal = file.complexityTotal
  complexityMax_eq : project.complexityMax = file.complexityMax
  complexityCount_eq : project.complexityCount = file.complexityCount

/-- The metrics of a project count lines of these classes. -/
structure ProjectMetrics.CountsLines (project : ProjectMetrics) (classes : List LineClass) :
    Prop where
  totalLines_eq : project.totalLines = classes.length
  linesOfCode_eq : project.linesOfCode = classes.count .code
  linesOfComments_eq : project.linesOfComments = classes.count .comment

/-- The metrics of files were measured on their texts and their elements. -/
def MeasuredOn (files : List FileModel) (texts : List String) : Prop :=
  List.Forall₂ (fun file text => file.metrics = .measure text file.elements) files texts

variable {files : List FileModel} {texts : List String}

/-- A number that each file takes from its elements. -/
theorem MeasuredOn.map_metrics {β : Type} {f : FileMetrics → β} {g : List Element → β}
    (h : MeasuredOn files texts) (hfg : ∀ text elements, f (.measure text elements) = g elements) :
    (files.map FileModel.metrics).map f = files.map fun file => g file.elements := by
  rw [List.map_map]
  apply List.map_congr_left
  intro file hfile
  obtain ⟨text, -, htext⟩ := Outcome.exists_partner h.flip file hfile
  rw [Function.comp_apply, htext, hfg]

/-- A number of lines is added up over files as it is over their texts. -/
theorem MeasuredOn.addUp_lines {f : FileMetrics → Int} {count : List LineClass → Nat}
    (h : MeasuredOn files texts)
    (hcount : ∀ text elements, f (.measure text elements) = count (LineClass.ofText text))
    (happend : ∀ classes classes', count (classes ++ classes') = count classes + count classes') :
    addUp ((files.map FileModel.metrics).map f) = count (texts.flatMap LineClass.ofText) := by
  induction h with
  | nil =>
      have hnil := happend [] []
      rw [List.append_nil] at hnil
      rw [show addUp _ = 0 from rfl, List.flatMap_nil]
      omega
  | @cons file text files texts hfile _ ih =>
      rw [List.map_cons, List.map_cons, addUp_cons, ih, hfile, hcount, List.flatMap_cons, happend]
      omega

namespace ProjectMetrics

/-- The order of the files is forgotten. -/
theorem rollup_perm {files files' : List FileMetrics} (h : files.Perm files') :
    rollup files = rollup files' := by
  have hsum (f : FileMetrics → Int) : addUp (files.map f) = addUp (files'.map f) :=
    addUp_perm (h.map f)
  unfold rollup
  rw [hsum, hsum, hsum, hsum, hsum, hsum, h.length_eq, largest_perm (h.map _),
    Counts.sum_perm (h.flatMap_right _)]

theorem rollup_kindCounts (h : MeasuredOn files texts) :
    (rollup (files.map FileModel.metrics)).kindCounts =
      .ofNames (kindNames (files.flatMap FileModel.elements)) := by
  show Counts.sum ((files.map FileModel.metrics).flatMap _) = _
  rw [List.flatMap_def, h.map_metrics FileMetrics.measure_kindCounts, ← List.flatMap_def,
    Counts.sum_flatMap_ofNames, kindNames_flatMap]

/-- The elements of a project are counted as those of one file. -/
theorem rollup_countsAs (h : MeasuredOn files texts)
    (hcomplexity : ∀ file ∈ files, ∀ c ∈ complexities file.elements, 0 ≤ c) (text : String) :
    (rollup (files.map FileModel.metrics)).CountsAs
      (.measure text (files.flatMap FileModel.elements)) where
  totalElements_eq := by
    show addUp _ = ((files.flatMap FileModel.elements).length : Int)
    rw [h.map_metrics (g := fun elements => (elements.length : Int)) fun _ _ => rfl,
      length_flatMap_eq]
  kindCounts_eq := by
    rw [rollup_kindCounts h, FileMetrics.measure_kindCounts]
  complexityTotal_eq := by
    show addUp _ = addUp (complexities (files.flatMap FileModel.elements))
    rw [h.map_metrics (g := fun elements => addUp (complexities elements)) fun _ _ => rfl,
      complexities_flatMap, addUp_flatMap]
  complexityMax_eq := by
    show largest _ = largest (complexities (files.flatMap FileModel.elements))
    rw [h.map_metrics (g := fun elements => largest (complexities elements)) fun _ _ => rfl,
      complexities_flatMap, largest_flatMap hcomplexity]
  complexityCount_eq := by
    show addUp _ = ((complexities (files.flatMap FileModel.elements)).length : Int)
    rw [h.map_metrics (g := fun elements => ((complexities elements).length : Int)) fun _ _ => rfl,
      complexities_flatMap, length_flatMap_eq]

/-- Every element is counted under one kind. -/
theorem rollup_total (h : MeasuredOn files texts) :
    (rollup (files.map FileModel.metrics)).kindCounts.total =
      (files.flatMap FileModel.elements).length := by
  rw [rollup_kindCounts h, Counts.total_ofNames, kindNames, List.length_map]

/-- The lines of a project are those of its texts. -/
theorem rollup_countsLines (h : MeasuredOn files texts) :
    (rollup (files.map FileModel.metrics)).CountsLines (texts.flatMap LineClass.ofText) where
  totalLines_eq := h.addUp_lines (fun _ _ => rfl) fun _ _ => List.length_append
  linesOfCode_eq := h.addUp_lines (fun _ _ => rfl) fun _ _ => List.count_append
  linesOfComments_eq := h.addUp_lines (fun _ _ => rfl) fun _ _ => List.count_append

/-- All lines of the texts are counted. -/
theorem rollup_totalLines (h : MeasuredOn files texts) :
    (rollup (files.map FileModel.metrics)).totalLines = (texts.flatMap Text.lines).length := by
  rw [(rollup_countsLines h).totalLines_eq, List.length_flatMap, List.length_flatMap]
  simp only [LineClass.length_ofText]

/-- Where no two marks of block comments share a character, the lines are counted as they are read
from left to right. -/
theorem rollup_countsScanned (h : MeasuredOn files texts)
    (hapart : ∀ text ∈ texts, ∀ line ∈ Text.lines text, LineClass.MarksApart line) :
    (rollup (files.map FileModel.metrics)).CountsLines (texts.flatMap LineClass.scanned) := by
  rw [← List.flatMap_congr fun text htext => LineClass.ofText_eq_scanned (hapart text htext)]
  exact rollup_countsLines h

/-- The metrics of a project whose files were measured: they count its elements as one file with all
of them does, each of them under one kind, and the lines of its files, which are those of their
texts, in any order of the files. -/
theorem rollup_measured (h : MeasuredOn files texts)
    (hcomplexity : ∀ file ∈ files, ∀ element ∈ file.elements, ∀ c,
      element.item.complexity = some c → 1 ≤ c) :
    let project := rollup (files.map FileModel.metrics)
    (∀ text, project.CountsAs (.measure text (files.flatMap FileModel.elements))) ∧
    project.kindCounts.total = project.totalElements ∧
    project.totalLines = addUp (files.map fun file => file.metrics.totalLines) ∧
    project.linesOfCode = addUp (files.map fun file => file.metrics.linesOfCode) ∧
    project.linesOfComments = addUp (files.map fun file => file.metrics.linesOfComments) ∧
    project.CountsLines (texts.flatMap LineClass.ofText) ∧
    project.totalLines = (texts.flatMap Text.lines).length ∧
    ((∀ text ∈ texts, ∀ line ∈ Text.lines text, LineClass.MarksApart line) →
      project.CountsLines (texts.flatMap LineClass.scanned)) ∧
    ∀ files', files.Perm files' → rollup (files'.map FileModel.metrics) = project := by
  intro project
  have hcounts := rollup_countsAs h fun file hfile => complexities_nonneg (hcomplexity file hfile)
  have hlines (f : FileMetrics → Int) :
      addUp ((files.map FileModel.metrics).map f) = addUp (files.map fun file => f file.metrics) := by
    rw [List.map_map]
    rfl
  refine ⟨hcounts, ?_, hlines _, hlines _, hlines _, rollup_countsLines h, rollup_totalLines h,
    rollup_countsScanned h, ?_⟩
  · rw [rollup_total h, (hcounts "").totalElements_eq]
    rfl
  · intro files' hperm
    exact (rollup_perm (hperm.map _)).symm

end ProjectMetrics

namespace Sample

/-- An element of some kind and complexity. -/
def rated (kind : Kind) (complexity : Option Int) : Element where
  item := ⟨kind, "a", "", .pub, [], [], ⟨"", 1, 1, 0, 0, 0, 0⟩, complexity, none, [], []⟩
  placement := ⟨"", "a", "", none, 0⟩
  childrenIds := []

/-- A file with some text and elements, measured on them. -/
def measured (text : String) (elements : List Element) : FileModel where
  path := "/a.rs"
  relativePath := "a.rs"
  modulePath := "crate::a"
  contentHash := ""
  elements := elements
  imports := []
  metrics := .measure text elements
  references := []

/-- A file with two functions and a module, one without elements, and one with a function. -/
def measuredFiles : List FileModel :=
  [measured "a\n\n//\n" [rated .function (some 4), rated .mod none, rated .function (some 1)],
    measured "//\n" [], measured "a\n" [rated .function (some 7)]]

end Sample

/-- In the sample, the largest complexity is that of the last file. -/
theorem ProjectMetrics.rollup_measured_sample :
    MeasuredOn Sample.measuredFiles ["a\n\n//\n", "//\n", "a\n"] ∧
    (∀ file ∈ Sample.measuredFiles, ∀ element ∈ file.elements, ∀ c,
      element.item.complexity = some c → 1 ≤ c) ∧
    let project := rollup (Sample.measuredFiles.map FileModel.metrics)
    project.CountsAs (.measure "" (Sample.measuredFiles.flatMap FileModel.elements)) ∧
    project.kindCounts = [("function", 3), ("module", 1)] ∧
    project.kindCounts.total = 4 ∧ project.complexityMax = 7 ∧ project.totalLines = 5 ∧
    project.CountsLines [.code, .blank, .comment, .comment, .code] ∧
    rollup (Sample.measuredFiles.reverse.map FileModel.metrics) = project := by
  have hmeasured : MeasuredOn Sample.measuredFiles ["a\n\n//\n", "//\n", "a\n"] :=
    .cons rfl (.cons rfl (.cons rfl .nil))
  have hcomplexity : ∀ file ∈ Sample.measuredFiles, ∀ element ∈ file.elements, ∀ c,
      element.item.complexity = some c → 1 ≤ c := by
    have hall : ∀ file ∈ Sample.measuredFiles, ∀ element ∈ file.elements,
        ∀ c ∈ element.item.complexity, 1 ≤ c := by
      decide +kernel
    exact hall
  obtain ⟨hcounts, htotal, -, -, -, -, hlines, hscanned, hperm⟩ :=
    rollup_measured hmeasured hcomplexity
  have hproject : (rollup (Sample.measuredFiles.map FileModel.metrics)).totalElements = 4 := by
    decide +kernel
  have hapart : ∀ text ∈ ["a\n\n//\n", "//\n", "a\n"], ∀ line ∈ Text.lines text,
      LineClass.MarksApart line := by
    decide +kernel
  have hclasses : ["a\n\n//\n", "//\n", "a\n"].flatMap LineClass.scanned =
      [.code, .blank, .comment, .comment, .code] := by
    decide +kernel
  have htotalLines : (["a\n\n//\n", "//\n", "a\n"].flatMap Text.lines).length = 5 := by
    decide +kernel
  exact ⟨hmeasured, hcomplexity, hcounts "", by decide +kernel, htotal.trans hproject,
    by decide +kernel, hlines.trans (by rw [htotalLines]; rfl), hclasses ▸ hscanned hapart,
    hperm _ (List.reverse_perm _).symm⟩

/-! ## Runs -/

/-- A file is measured on its text and on its elements, and these are rated by their kinds. -/
theorem FileModel.measured_of_build {path : String} {file : SourceFile} {text : String}
    {root : Node} {model : FileModel} (h : build path file text root = .ok model) :
    model.metrics = .measure text model.elements ∧
      ∀ element ∈ model.elements, element.item.Rated := by
  obtain ⟨unsettled, hunresolved, rfl⟩ := Outcome.map_eq_ok_iff.mp h
  simp only [unresolved, Outcome.bind_eq_ok_iff, Outcome.pure_eq_ok_iff,
    Outcome.mapError_eq_ok_iff] at hunresolved
  obtain ⟨elements, helements, declarations, -, modulePath, -, rfl⟩ := hunresolved
  exact ⟨rfl, elementsOf_rated helements⟩

theorem exists_measured_of_processFile {top : FileTree} {path root : String} {limit : Int}
    {options : ReadOptions} {model : FileModel}
    (h : processFile top path root limit options = .ok model) :
    (∃ text, model.metrics = .measure text model.elements) ∧
      ∀ element ∈ model.elements, element.item.Rated := by
  unfold processFile at h
  rw [Outcome.mapError_eq_ok_iff] at h
  unfold extractFile at h
  obtain ⟨parsed, -, hmodel⟩ := Outcome.bind_eq_ok_iff.mp h
  obtain ⟨hmetrics, hrated⟩ := FileModel.measured_of_build (Outcome.mapError_eq_ok_iff.mp hmodel)
  exact ⟨⟨parsed.text, hmetrics⟩, hrated⟩

/-- The elements of a model that a run returns are rated by their kinds.  Its metrics count them as those
of one file, each under one kind, and the lines of its files. -/
theorem extractProject_measured {top : FileTree} {root : String} {settings : Settings}
    {signal : ProjectRun.Signal} {runId extractedAt : String} {model : ProjectModel}
    (h : extractProject top root settings signal runId extractedAt = .ok model) :
    (∀ element ∈ model.elements, element.item.Rated) ∧
    (∀ text, model.metrics.CountsAs (.measure text model.elements)) ∧
    model.metrics.kindCounts.total = model.elements.length ∧
    ∃ texts, MeasuredOn model.files texts ∧
      model.metrics.CountsLines (texts.flatMap LineClass.ofText) := by
  obtain ⟨paths, results, project, dependencies, -, hsublist, rfl⟩ := exists_of_extractProject h
  let resolver := Resolver.ofFiles (ProjectModel.ordered (ProjectRun.models results))
  let files := (ProjectModel.ordered (ProjectRun.models results)).map resolver.resolveFile
  have hfiles : ∀ file ∈ files, (∃ text, file.metrics = .measure text file.elements) ∧
      ∀ element ∈ file.elements, element.item.Rated := by
    intro file hfile
    obtain ⟨old, hold, rfl⟩ := List.mem_map.mp hfile
    have hmodel := (ProjectModel.ordered_perm _).mem_iff.mp hold
    have hresult := hsublist.subset (ProjectRun.mem_models.mp hmodel)
    obtain ⟨path, -, hprocessed⟩ := List.mem_map.mp hresult
    -- Resolving references changes neither metrics nor elements.
    have hmeasured := exists_measured_of_processFile hprocessed
    exact hmeasured
  choose! textOf htext using fun file hfile => (hfiles file hfile).1
  have hmeasured : MeasuredOn files (files.map textOf) :=
    List.forall₂_map_right_iff.mpr (List.forall₂_same.mpr htext)
  have hcomplexity : ∀ file ∈ files, ∀ c ∈ complexities file.elements, 0 ≤ c := by
    intro file hfile
    apply complexities_nonneg
    intro element helement c hsome
    exact ((hfiles file hfile).2 element helement).one_le_of_eq_some hsome
  have hrated : ∀ element ∈ files.flatMap FileModel.elements, element.item.Rated := by
    intro element helement
    obtain ⟨file, hfile, hmem⟩ := List.mem_flatMap.mp helement
    exact (hfiles file hfile).2 element hmem
  exact ⟨hrated, ProjectMetrics.rollup_countsAs hmeasured hcomplexity,
    ProjectMetrics.rollup_total hmeasured, files.map textOf, hmeasured,
    ProjectMetrics.rollup_countsLines hmeasured⟩

end CrateAtlas
