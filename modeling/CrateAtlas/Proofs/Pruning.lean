import CrateAtlas.Proofs.CompletionOrder
import CrateAtlas.Proofs.GlobMatch
import CrateAtlas.Proofs.Lookup

/-!
# Pruned walks

A walk does not go down into a directory that an exclude pattern matches with a slash at its end.
What it reports is what the filters select among the files below its root, as long as such a pattern
matches the files below the directory as well.  A pattern need not: {lit}`gen/*` matches the
directory {lit}`gen` but no file below a subdirectory of it, and these files are lost.

Main results:

- Theorem {lit}`kept_iff`: what settings say about a way down, directory by directory.
- Theorem {lit}`Eligible.kept`: an eligible file that no pattern cuts off is kept.
- Theorem {lit}`discover_eligible`: the source files below any path are the eligible ones that no
  pattern cuts off, in increasing order.
- Theorem {lit}`discover_pruned_strays`: a file that is lost.
-/

namespace CrateAtlas

/-! ## Patterns that can be read -/

namespace Glob

variable {patterns select exclude : List String} {path : String}

theorem test_eq {pattern : String} {pieces : List Piece} (h : compile pattern = .ok pieces)
    (path : String) : test pattern path = .ok (covers pieces path.toList) := by
  rw [test, h]
  rfl

/-- A list of patterns matches a path exactly when one of them does. -/
theorem testAny_eq_true_iff
    (h : ∀ pattern ∈ patterns, ∃ pieces, compile pattern = .ok pieces) :
    testAny patterns path = .ok true ↔ ∃ pattern ∈ patterns, test pattern path = .ok true := by
  induction patterns with
  | nil => simp [testAny]
  | cons pattern rest ih =>
      obtain ⟨⟨pieces, hpieces⟩, hrest⟩ := List.forall_mem_cons.mp h
      rw [List.exists_mem_cons_iff, ← ih hrest, testAny, test_eq hpieces]
      cases covers pieces path.toList <;> simp [bind, Except.bind, pure, Except.pure]

/-- Patterns that can be read match or they do not. -/
theorem exists_testAny (h : ∀ pattern ∈ patterns, ∃ pieces, compile pattern = .ok pieces)
    (path : String) : ∃ matched, testAny patterns path = .ok matched := by
  induction patterns with
  | nil => exact ⟨false, rfl⟩
  | cons pattern rest ih =>
      obtain ⟨⟨pieces, hpieces⟩, hrest⟩ := List.forall_mem_cons.mp h
      obtain ⟨matched, hmatched⟩ := ih hrest
      rw [testAny, test_eq hpieces, hmatched]
      cases covers pieces path.toList
      · exact ⟨matched, rfl⟩
      · exact ⟨true, rfl⟩

/-- A path that is selected matches no exclude pattern. -/
theorem testAny_of_selects (h : selects select exclude path = .ok true) :
    testAny exclude path = .ok false := by
  obtain ⟨matched, hmatched, h⟩ := Outcome.bind_eq_ok_iff.mp h
  cases matched with
  | false => exact hmatched
  | true => cases h

/-- A whole pattern that matches a directory matches the paths below it without line feeds. -/
theorem IsWhole.test_below {pattern directory rest : String} (h : IsWhole pattern)
    (hdirectory : test pattern (directory ++ "/") = .ok true) (hrest : '\n' ∉ rest.toList) :
    test pattern (directory ++ "/" ++ rest) = .ok true := by
  obtain ⟨pieces, hpieces, hwhole⟩ := h
  rw [test_eq hpieces, Except.ok.injEq] at hdirectory ⊢
  rw [String.toList_append] at hdirectory
  rw [String.toList_append, String.toList_append, List.append_assoc]
  exact covers_below hwhole hdirectory hrest

end Glob

namespace Discovery

open FileTree

variable {top : FileTree} {settings : Settings} {root : String}
  {here names front back : List String}

/-! ## Names -/

/-- A name ends in {lit}`.rs` after something else than dots. -/
def EndsInRs (name : String) : Prop :=
  ∃ stem, name.toList = stem ++ ['.', 'r', 's'] ∧ ∃ c ∈ stem, c ≠ '.'

theorem isSourceName_iff {name : String} : isSourceName name = true ↔ EndsInRs name := by
  rw [isSourceName, beq_iff_eq]
  exact PosixPath.extension_eq_rs_iff

theorem isVersionControl_eq_false_iff {name : String} :
    isVersionControl name = false ↔ name ∉ [".git", ".hg", ".svn"] := by
  simp [isVersionControl, and_assoc]

/-! ## Ways down -/

/-- Settings keep a way down that goes on when they keep its first directory and the rest. -/
theorem kept_cons_iff {first : String} {rest : List String} (h : rest ≠ []) :
    Kept settings here (first :: rest) ↔
      keepsDirectory (.of .empty settings false) here first false = .ok true ∧
        Kept settings (here ++ [first]) rest := by
  cases rest with
  | nil => contradiction
  | cons next last => rfl

/-- A list is split at its first entry or further on. -/
theorem forall_split_cons_iff {holds : List String → String → Prop} {first : String}
    {rest : List String} :
    (∀ front name back, first :: rest = front ++ name :: back → holds front name) ↔
      holds [] first ∧
        ∀ front name back, rest = front ++ name :: back → holds (first :: front) name := by
  constructor
  · intro h
    refine ⟨h [] first rest rfl, ?_⟩
    intro front name back hsplit
    exact h (first :: front) name back (by rw [hsplit]; rfl)
  · rintro ⟨hfirst, hrest⟩ front name back hsplit
    cases front with
    | nil =>
        obtain ⟨rfl, -⟩ := List.cons.inj hsplit
        exact hfirst
    | cons other front =>
        obtain ⟨rfl, htail⟩ := List.cons.inj hsplit
        exact hrest front name back htail

theorem kept_concat_iff {parents : List String} {name : String} :
    Kept settings here (parents ++ [name]) ↔
      keepsFile (.of .empty settings false) (here ++ parents) name false = .ok true ∧
      ∀ front directory back, parents = front ++ directory :: back →
        keepsDirectory (.of .empty settings false) (here ++ front) directory false = .ok true := by
  induction parents generalizing here with
  | nil => simp [Kept]
  | cons parent parents ih =>
      rw [List.cons_append, kept_cons_iff (by simp), ih, forall_split_cons_iff]
      simp only [List.append_assoc, List.singleton_append, List.append_nil]
      exact and_left_comm

/-- Settings keep a way down when they keep each directory on it and the file. -/
theorem kept_iff : Kept settings here names ↔
    ∃ parents name, names = parents ++ [name] ∧
      keepsFile (.of .empty settings false) (here ++ parents) name false = .ok true ∧
      ∀ front directory back, parents = front ++ directory :: back →
        keepsDirectory (.of .empty settings false) (here ++ front) directory false = .ok true := by
  constructor
  · intro h
    rcases List.eq_nil_or_concat' names with rfl | ⟨parents, name, rfl⟩
    · cases h
    · exact ⟨parents, name, rfl, kept_concat_iff.mp h⟩
  · rintro ⟨parents, name, rfl, h⟩
    exact kept_concat_iff.mpr h

/-- A file below a root that the filters select: a true file with the extension of source files, in
true directories that are not those of version control. -/
structure Eligible (top : FileTree) (settings : Settings) (root : String) (names : List String) :
    Prop where
  exists_file : ∃ place entries content, top.lookup root = .ok place ∧
    place.tree = .directory entries ∧ top.standsAt? (place.path ++ names) = some (.file content)
  source : ∃ parents name, names = parents ++ [name] ∧ EndsInRs name ∧
    ∀ directory ∈ parents, directory ∉ [".git", ".hg", ".svn"]
  selected : Glob.selects settings.selected settings.excluded (PosixPath.joinParts names) = .ok true

/-- A pattern cuts a path off that it need not match: it matches a directory on the way with a slash
at its end, but it does not match whole directories, or not across the line feeds in the path. -/
def CutsOff (pattern : String) (names : List String) : Prop :=
  (¬Glob.IsWhole pattern ∨ '\n' ∈ (PosixPath.joinParts names).toList) ∧
    ∃ front back, names = front ++ back ∧ front ≠ [] ∧ back ≠ [] ∧
      Glob.test pattern (PosixPath.joinParts front ++ "/") = .ok true

/-- A directory on the way to an eligible file is searched, unless a pattern cuts the file off. -/
theorem Eligible.keepsDirectory_eq (h : Eligible top settings root names)
    (hpatterns : ∀ pattern ∈ settings.excluded, ∃ pieces, Glob.compile pattern = .ok pieces)
    (hcut : ∀ pattern ∈ settings.excluded, ¬CutsOff pattern names) {directory : String}
    (hcontrol : directory ∉ [".git", ".hg", ".svn"]) (hnames : names = front ++ directory :: back)
    (hback : back ≠ []) :
    keepsDirectory (.of .empty settings false) front directory false = .ok true := by
  have hsplit : names = (front ++ [directory]) ++ back := by simp [hnames]
  have hjoin : PosixPath.joinParts names =
      PosixPath.joinParts (front ++ [directory]) ++ "/" ++ PosixPath.joinParts back := by
    rw [hsplit, PosixPath.joinParts_append (by simp) hback]
  obtain ⟨matched, hmatched⟩ := Glob.exists_testAny hpatterns
    (PosixPath.joinParts (front ++ [directory]) ++ "/")
  cases matched with
  | false =>
      unfold keepsDirectory
      simp only [isVersionControl_eq_false_iff.mpr hcontrol, Bool.false_and, Bool.or_self,
        Bool.false_eq_true, if_false]
      exact Outcome.map_eq_ok_iff.mpr ⟨false, hmatched, rfl⟩
  | true =>
      exfalso
      obtain ⟨pattern, hpattern, htest⟩ := (Glob.testAny_eq_true_iff hpatterns).mp hmatched
      have hwhole : Glob.IsWhole pattern ∧ '\n' ∉ (PosixPath.joinParts names).toList := by
        by_contra hnot
        rw [not_and_or, not_not] at hnot
        exact hcut pattern hpattern ⟨hnot, _, back, hsplit, by simp, hback, htest⟩
      have hline : '\n' ∉ (PosixPath.joinParts back).toList := by
        intro hmem
        apply hwhole.2
        rw [hjoin, String.toList_append]
        exact List.mem_append_right _ hmem
      have hfile := hwhole.1.test_below htest hline
      rw [← hjoin] at hfile
      have hexcluded := (Glob.testAny_eq_true_iff hpatterns).mpr ⟨pattern, hpattern, hfile⟩
      rw [Glob.testAny_of_selects h.selected] at hexcluded
      cases hexcluded

/-- An eligible file that no pattern cuts off is kept. -/
theorem Eligible.kept (h : Eligible top settings root names)
    (hpatterns : ∀ pattern ∈ settings.excluded, ∃ pieces, Glob.compile pattern = .ok pieces)
    (hcut : ∀ pattern ∈ settings.excluded, ¬CutsOff pattern names) : Kept settings [] names := by
  obtain ⟨parents, name, hnames, hsource, hcontrol⟩ := h.source
  refine kept_iff.mpr ⟨parents, name, hnames, ?_, ?_⟩
  · unfold keepsFile
    simp only [isSourceName_iff.mpr hsource, Bool.not_true, Bool.false_and, Bool.or_self,
      Bool.false_eq_true, if_false]
    rw [List.nil_append, ← hnames]
    exact h.selected
  · intro front directory back hparents
    have hdirectory := hcontrol directory (by simp [hparents])
    have hway : names = front ++ directory :: (back ++ [name]) := by
      simp [hnames, hparents]
    exact h.keepsDirectory_eq hpatterns hcut hdirectory hway (by simp)

/-- What settings keep is selected by the filters and in no directory of version control. -/
theorem Kept.filters (h : Kept settings [] names) :
    (∃ parents name, names = parents ++ [name] ∧ EndsInRs name ∧
      ∀ directory ∈ parents, directory ∉ [".git", ".hg", ".svn"]) ∧
    Glob.selects settings.selected settings.excluded (PosixPath.joinParts names) = .ok true := by
  obtain ⟨parents, name, hnames, hfile, hdirectories⟩ := kept_iff.mp h
  refine ⟨⟨parents, name, hnames, isSourceName_iff.mp (isSourceName_of_keepsFile hfile), ?_⟩,
    ?_⟩
  · intro directory hdirectory
    obtain ⟨front, back, hparents⟩ := List.append_of_mem hdirectory
    have hkeeps := hdirectories front directory back hparents
    unfold keepsDirectory at hkeeps
    split at hkeeps <;> rename_i hcontrol
    · cases hkeeps
    · exact isVersionControl_eq_false_iff.mp (by simpa using hcontrol)
  · unfold keepsFile at hfile
    split at hfile
    · cases hfile
    · rwa [List.nil_append, ← hnames] at hfile

/-- Nothing that settings keep is cut off: no directory on the way matches an exclude pattern. -/
theorem Kept.not_cutsOff (h : Kept settings [] names)
    (hpatterns : ∀ pattern ∈ settings.excluded, ∃ pieces, Glob.compile pattern = .ok pieces) :
    ∀ pattern ∈ settings.excluded, ¬CutsOff pattern names := by
  rintro pattern hpattern ⟨-, front, back, hsplit, hfront, hback, htest⟩
  obtain ⟨parents, name, hnames, -, hdirectories⟩ := kept_iff.mp h
  obtain ⟨outer, directory, rfl⟩ := (List.eq_nil_or_concat' front).resolve_left hfront
  obtain ⟨inner, last, rfl⟩ := (List.eq_nil_or_concat' back).resolve_left hback
  have hparents : parents = outer ++ directory :: inner := by
    have hsame : parents ++ [name] = (outer ++ directory :: inner) ++ [last] := by
      simp [← hnames, hsplit]
    exact (List.append_inj' hsame rfl).1
  have hkeeps := hdirectories outer directory inner hparents
  unfold keepsDirectory at hkeeps
  split at hkeeps
  · cases hkeeps
  · obtain ⟨matched, hmatched, hnot⟩ := Outcome.map_eq_ok_iff.mp hkeeps
    have hmatches := (Glob.testAny_eq_true_iff hpatterns).mpr ⟨pattern, hpattern, htest⟩
    obtain rfl : matched = true := Except.ok.inj (hmatched.symm.trans hmatches)
    simp at hnot

/-! ## The source files -/

/-- A run looks for source files below a path in normal form, whatever its working directory. -/
theorem discover_absolute (workingDirectory path : String) :
    discover top settings workingDirectory (PosixPath.absolute path) =
      sourceFiles top settings (PosixPath.absolute path) := by
  rw [discover, PosixPath.absoluteFrom_absolute]

/-- Source files come in increasing order, each once. -/
theorem sourceFiles_sorted (htop : top.WellFormed) {paths : List String}
    (h : sourceFiles top settings root = .ok paths) : paths.Pairwise (· < ·) := by
  have hnodup : paths.Nodup := (sourceFiles_relative htop h).1.of_map
  have hsorted : paths.Pairwise (· ≤ ·) := by
    obtain ⟨outcome, -, rfl⟩ := Outcome.map_eq_ok_iff.mp h
    exact pairwise_mergeSort_key id outcome.paths
  refine (hsorted.and hnodup).imp ?_
  rintro a b ⟨hle, hne⟩
  by_contra hnot
  exact hne (String.le_antisymm hle (String.not_lt.mp hnot))

/-- Below a path that leads to no directory there are no source files. -/
theorem sourceFiles_of_not_directory (hroot : '\x00' ∉ root.toList)
    (h : top.isDirectoryAt root ≠ true) : sourceFiles top settings root = .ok [] := by
  have hwalk : walk (.of top settings false) root = .ok ⟨[], [root]⟩ := by
    unfold walk
    rw [show (Plan.of top settings false).top.lookup root = top.lookup root from rfl]
    split
    · rename_i hlookup
      exact absurd (by rw [isDirectoryAt, hlookup]) h
    · rename_i hlookup
      exact absurd hlookup (lookup_ne_nullByte top hroot)
    · rfl
  rw [sourceFiles, hwalk]
  exact congrArg Except.ok List.mergeSort_nil

/-- The source files below a path, for a process with any working directory, are the eligible ones
that no exclude pattern cuts off, in increasing order and each once. -/
theorem discover_eligible (htop : top.WellFormed) {workingDirectory path : String}
    (hpath : '\x00' ∉ (PosixPath.absoluteFrom workingDirectory path).toList)
    (hpatterns : ∀ pattern ∈ settings.selected ++ settings.excluded,
      ∃ pieces, Glob.compile pattern = .ok pieces) :
    ∃ paths, discover top settings workingDirectory path = .ok paths ∧ paths.Pairwise (· < ·) ∧
      ∀ file, file ∈ paths ↔ ∃ names,
        file = PosixPath.below (PosixPath.absoluteFrom workingDirectory path)
          (PosixPath.joinParts names) ∧
        Eligible top settings (PosixPath.absoluteFrom workingDirectory path) names ∧
        ∀ pattern ∈ settings.excluded, ¬CutsOff pattern names := by
  unfold discover
  generalize PosixPath.absoluteFrom workingDirectory path = root at hpath ⊢
  have hexcluded : ∀ pattern ∈ settings.excluded, ∃ pieces, Glob.compile pattern = .ok pieces :=
    fun pattern hpattern => hpatterns pattern (List.mem_append_right _ hpattern)
  by_cases hdirectory : top.isDirectoryAt root = true
  · obtain ⟨paths, hpaths⟩ := exists_sourceFiles hdirectory hpatterns
    obtain ⟨place, entries, hlookup, hplace⟩ := exists_of_isDirectoryAt hdirectory
    refine ⟨paths, hpaths, sourceFiles_sorted htop hpaths, ?_⟩
    intro file
    rw [mem_sourceFiles_iff htop hlookup hplace hpaths]
    constructor
    · rintro ⟨names, rfl, hkept, content, hstands⟩
      obtain ⟨hsource, hselected⟩ := hkept.filters
      exact ⟨names, rfl, ⟨⟨place, entries, content, hlookup, hplace, hstands⟩, hsource, hselected⟩,
        hkept.not_cutsOff hexcluded⟩
    · rintro ⟨names, rfl, heligible, hcut⟩
      obtain ⟨place', entries', content, hlookup', -, hstands⟩ := heligible.exists_file
      obtain rfl := Except.ok.inj (hlookup.symm.trans hlookup')
      exact ⟨names, rfl, heligible.kept hexcluded hcut, content, hstands⟩
  · refine ⟨[], sourceFiles_of_not_directory hpath hdirectory, .nil, ?_⟩
    intro file
    constructor
    · intro hfile
      simp at hfile
    · rintro ⟨names, -, heligible, -⟩
      obtain ⟨⟨here, tree, left⟩, entries, content, hlookup, rfl, -⟩ := heligible.exists_file
      exact absurd (by rw [isDirectoryAt, hlookup]) hdirectory

end Discovery

/-! ## A file in a subdirectory -/

namespace Sample

/-- The entries of a project with one file two directories down. -/
def nestedEntries : List (String × FileTree) :=
  [("gen", .directory [("sub", .directory [("a.rs", .file ⟨[], user, none, false⟩)])])]

/-- The project. -/
def nested : FileTree :=
  .directory [("p", .directory nestedEntries)]

/-- Settings that select all source files, with some exclude patterns. -/
def excluding (patterns : List String) : Settings :=
  { Settings.default with selected := ["**/*.rs"], excluded := patterns }

theorem wellFormed_nested : nested.WellFormed := by
  refine .directory _ (by decide) (by simp; decide) ?_
  rw [List.forall_mem_singleton]
  refine .directory _ (by decide) (by simp [nestedEntries]; decide) ?_
  rw [nestedEntries, List.forall_mem_singleton]
  refine .directory _ (by decide) (by simp; decide) ?_
  rw [List.forall_mem_singleton]
  refine .directory _ (by decide) (by simp; decide) ?_
  rw [List.forall_mem_singleton]
  exact .file _

/-- The file is eligible when the filters select it. -/
theorem eligible_nested {patterns : List String}
    (h : Glob.selects ["**/*.rs"] patterns "gen/sub/a.rs" = .ok true) :
    Discovery.Eligible nested (excluding patterns) "/p" ["gen", "sub", "a.rs"] where
  exists_file := ⟨⟨["p"], .directory nestedEntries, 40⟩, nestedEntries, _, rfl, rfl, rfl⟩
  source := ⟨["gen", "sub"], "a.rs", rfl, ⟨['a'], rfl, 'a', by simp, by decide⟩, by decide⟩
  selected := h

end Sample

namespace Discovery

/-- Patterns that match whole directories cut nothing off. -/
theorem discover_eligible_sample :
    Sample.nested.WellFormed ∧ '\x00' ∉ (PosixPath.absoluteFrom "/p/src" "./..//").toList ∧
      (∀ pattern ∈ ["**/*.rs"] ++ ["target/**", "gen/*.txt"],
        ∃ pieces, Glob.compile pattern = .ok pieces) ∧
      ∃ paths, discover Sample.nested (Sample.excluding ["target/**", "gen/*.txt"]) "/p/src"
        "./..//" = .ok paths ∧ "/p/gen/sub/a.rs" ∈ paths := by
  have hpatterns : ∀ pattern ∈ ["**/*.rs"] ++ ["target/**", "gen/*.txt"],
      ∃ pieces, Glob.compile pattern = .ok pieces := by
    simp only [List.cons_append, List.nil_append, List.forall_mem_cons]
    exact ⟨⟨_, rfl⟩, ⟨_, rfl⟩, ⟨_, rfl⟩, by simp⟩
  have hroot : PosixPath.absoluteFrom "/p/src" "./..//" = "/p" := by decide
  have hnull : '\x00' ∉ (PosixPath.absoluteFrom "/p/src" "./..//").toList := by decide
  obtain ⟨paths, hpaths, -, hmem⟩ := @discover_eligible Sample.nested
    (Sample.excluding ["target/**", "gen/*.txt"]) Sample.wellFormed_nested "/p/src" "./..//" hnull
    hpatterns
  refine ⟨Sample.wellFormed_nested, hnull, hpatterns, paths, hpaths, ?_⟩
  rw [hroot] at hmem
  refine (hmem _).mpr ⟨["gen", "sub", "a.rs"], by decide, Sample.eligible_nested (by decide), ?_⟩
  have hline : '\n' ∉ (PosixPath.joinParts ["gen", "sub", "a.rs"]).toList := by decide
  have hwhole : ∀ pattern ∈ ["target/**", "gen/*.txt"], Glob.IsWhole pattern := by
    simp only [List.forall_mem_cons]
    exact ⟨⟨_, rfl, rfl⟩, ⟨_, rfl, rfl⟩, by simp⟩
  rintro pattern hpattern ⟨hcut | hcut, -⟩
  · exact hcut (hwhole pattern hpattern)
  · exact hline hcut

/-- A pattern that matches a directory and its files, but none further down, loses what is further
down although the filters select it. -/
theorem discover_pruned_strays :
    Eligible Sample.nested (Sample.excluding ["gen/*"]) (PosixPath.absoluteFrom "/" "p")
        ["gen", "sub", "a.rs"] ∧
      discover Sample.nested (Sample.excluding ["gen/*"]) "/" "p" = .ok [] := by
  have hroot : PosixPath.absoluteFrom "/" "p" = "/p" := by decide
  rw [discover, hroot]
  refine ⟨Sample.eligible_nested (by decide), ?_⟩
  have hlookup : (Plan.of Sample.nested (Sample.excluding ["gen/*"]) false).top.lookup "/p" =
      .ok ⟨["p"], .directory Sample.nestedEntries, 40⟩ := rfl
  have hsettle : ∀ found, settle (.of Sample.nested (Sample.excluding ["gen/*"]) false) []
      [("gen", .directory false found)] = .ok [] := by
    intro found
    rw [settle, List.mergeSort_singleton]
    rfl
  have hwalk : walk (.of Sample.nested (Sample.excluding ["gen/*"]) false) "/p" = .ok ⟨[], []⟩ := by
    rw [walk, hlookup]
    simp only [walkDirectory, Sample.nestedEntries, classifyAll, classify, hsettle, List.map_nil]
  rw [sourceFiles, hwalk]
  exact congrArg Except.ok List.mergeSort_nil

end Discovery

end CrateAtlas
