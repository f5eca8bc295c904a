import CrateAtlas.Proofs.Pruning
import Mathlib.Data.List.Sort

/-!
# The listing of source files

The source files of a project are a function of what stands in the file tree.  A file is listed
when its name is that of a source file, the filters take its path, and the walk comes down to it:
only true directories stand on the way, none of them is one of version control, and no exclude
pattern matches one of them with a slash at its end.  The order in which directories list their
entries makes no difference.

Main results:

- Theorem {lit}`kept_iff_passes`: settings keep a way down exactly when it passes the filters.
- Theorem {lit}`Relisted.keeps`: listing entries in another order keeps what stands in a tree.
- Theorem {lit}`discover_listed`: the source files below any path are the listed ones, in increasing
  order, in whatever order directories list their entries.
-/

namespace CrateAtlas

namespace Glob

variable {patterns select exclude : List String} {path : String}

/-- A pattern that can be read matches a path, or it does not. -/
theorem test_eq_false_iff {pattern : String} (h : ∃ pieces, compile pattern = .ok pieces) :
    test pattern path = .ok false ↔ test pattern path ≠ .ok true := by
  obtain ⟨pieces, hpieces⟩ := h
  rw [test_eq hpieces]
  cases covers pieces path.toList <;> simp

/-- No pattern of a list matches a path exactly when each of them does not. -/
theorem testAny_eq_false_iff (h : ∀ pattern ∈ patterns, ∃ pieces, compile pattern = .ok pieces) :
    testAny patterns path = .ok false ↔ ∀ pattern ∈ patterns, test pattern path = .ok false := by
  obtain ⟨matched, hmatched⟩ := exists_testAny h path
  have htrue := @testAny_eq_true_iff patterns path h
  rw [hmatched] at htrue ⊢
  constructor
  · intro hfalse pattern hpattern
    rw [test_eq_false_iff (h pattern hpattern)]
    intro htest
    rw [htrue.mpr ⟨pattern, hpattern, htest⟩] at hfalse
    cases hfalse
  · intro hnone
    cases matched with
    | false => rfl
    | true =>
        obtain ⟨pattern, hpattern, htest⟩ := htrue.mp rfl
        rw [hnone pattern hpattern] at htest
        cases htest

/-- A path is selected when no exclude pattern matches it and some select pattern does. -/
theorem selects_eq_true_iff
    (h : ∀ pattern ∈ select ++ exclude, ∃ pieces, compile pattern = .ok pieces) :
    selects select exclude path = .ok true ↔
      (∃ pattern ∈ select, test pattern path = .ok true) ∧
        ∀ pattern ∈ exclude, test pattern path = .ok false := by
  have hselect : ∀ pattern ∈ select, ∃ pieces, compile pattern = .ok pieces :=
    fun pattern hpattern => h pattern (List.mem_append_left _ hpattern)
  have hexclude : ∀ pattern ∈ exclude, ∃ pieces, compile pattern = .ok pieces :=
    fun pattern hpattern => h pattern (List.mem_append_right _ hpattern)
  rw [← testAny_eq_true_iff hselect, ← testAny_eq_false_iff hexclude]
  constructor
  · intro hselects
    have hnot := testAny_of_selects hselects
    rw [selects, hnot] at hselects
    exact ⟨hselects, hnot⟩
  · rintro ⟨hmatched, hnot⟩
    rw [selects, hnot]
    exact hmatched

end Glob

/-! ## Listing entries in another order -/

namespace FileTree

/-- The same tree with the entries of directories listed in other orders, however far down. -/
inductive Relisted : FileTree → FileTree → Prop where
  /-- One directory lists its entries in another order. -/
  | perm {entries entries' : List (String × FileTree)} : entries.Perm entries' →
      Relisted (.directory entries) (.directory entries')
  /-- An entry of a directory is listed in another order. -/
  | entry {front back : List (String × FileTree)} {name : String} {tree tree' : FileTree} :
      Relisted tree tree' →
      Relisted (.directory (front ++ (name, tree) :: back))
        (.directory (front ++ (name, tree') :: back))
  /-- Orders are changed one after the other. -/
  | trans {top middle top' : FileTree} : Relisted top middle → Relisted middle top' →
      Relisted top top'

variable {top top' tree : FileTree}

theorem Relisted.symm (h : Relisted top top') : Relisted top' top := by
  induction h with
  | perm hperm => exact .perm hperm.symm
  | entry _ ih => exact .entry ih
  | trans _ _ ihfirst ihsecond => exact .trans ihsecond ihfirst

/-- A file system may list its entries in any order. -/
theorem Relisted.wellFormed (h : Relisted top top') (htop : top.WellFormed) : top'.WellFormed := by
  induction h with
  | perm hperm =>
      cases htop with
      | directory _ hnodup hnames hentries =>
          refine .directory _ ((hperm.map _).nodup_iff.mp hnodup) ?_ ?_
          · exact fun entry hentry => hnames entry (hperm.mem_iff.mpr hentry)
          · exact fun entry hentry => hentries entry (hperm.mem_iff.mpr hentry)
  | entry _ ih =>
      cases htop with
      | directory _ hnodup hnames hentries =>
          rw [List.forall_mem_append, List.forall_mem_cons] at hnames hentries
          refine .directory _ ?_ ?_ ?_
          · rw [List.map_append, List.map_cons] at hnodup ⊢
            exact hnodup
          · rw [List.forall_mem_append, List.forall_mem_cons]
            exact hnames
          · rw [List.forall_mem_append, List.forall_mem_cons]
            exact ⟨hentries.1, ih hentries.2.1, hentries.2.2⟩
  | trans _ _ ihfirst ihsecond => exact ihsecond (ihfirst htop)

/-- Listing entries in another order keeps what stands in a tree. -/
theorem Relisted.keeps (h : Relisted top top') (htop : top.WellFormed) : Keeps top top' := by
  induction h with
  | @perm entries entries' hperm =>
      intro path found hfound
      cases htop with
      | directory _ hnodup _ _ =>
          cases path with
          | nil => exact hfound
          | cons name rest =>
              obtain ⟨sub, hsub, hbelow⟩ := (standsAt?_cons_iff hnodup).mp hfound
              rw [standsAt?_cons_iff ((hperm.map _).nodup_iff.mp hnodup)]
              exact ⟨sub, hperm.mem_iff.mp hsub, hbelow⟩
  | @entry front back label tree tree' _ ih =>
      intro path found hfound
      cases htop with
      | directory _ hnodup _ hentries =>
          have hkeeps : Keeps tree tree' := ih (hentries (label, tree) (by simp))
          cases path with
          | nil => exact hfound
          | cons name rest =>
              have hnodup' :
                  ((front ++ (label, tree') :: back).map Prod.fst).Nodup := by
                rw [List.map_append, List.map_cons] at hnodup ⊢
                exact hnodup
              obtain ⟨sub, hsub, hbelow⟩ := (standsAt?_cons_iff hnodup).mp hfound
              rw [standsAt?_cons_iff hnodup']
              rcases List.mem_append.mp hsub with hfront | hrest
              · exact ⟨sub, List.mem_append_left _ hfront, hbelow⟩
              · rcases List.mem_cons.mp hrest with heq | hback
                · obtain ⟨rfl, rfl⟩ := Prod.mk.inj heq
                  exact ⟨tree', by simp, hkeeps _ _ hbelow⟩
                · exact ⟨sub, by simp [hback], hbelow⟩
  | trans hfirst _ ihfirst ihsecond =>
      intro path found hfound
      exact ihsecond (hfirst.wellFormed htop) path found (ihfirst htop path found hfound)

end FileTree

/-! ## Listed files -/

namespace Discovery

open FileTree

variable {top top' : FileTree} {settings : Settings} {root : String} {names : List String}

/-- A way down passes the filters: its last name ends in {lit}`.rs`, some select pattern and no
exclude pattern matches it, and the directories on it are searched, since they are not those of
version control and no exclude pattern matches one with a slash at its end. -/
structure Passes (settings : Settings) (names : List String) : Prop where
  source : ∃ parents name, names = parents ++ [name] ∧ EndsInRs name
  selected : ∃ pattern ∈ settings.selected,
    Glob.test pattern (PosixPath.joinParts names) = .ok true
  not_excluded : ∀ pattern ∈ settings.excluded,
    Glob.test pattern (PosixPath.joinParts names) = .ok false
  searched : ∀ front directory back, names = front ++ directory :: back → back ≠ [] →
    directory ∉ [".git", ".hg", ".svn"] ∧ ∀ pattern ∈ settings.excluded,
      Glob.test pattern (PosixPath.joinParts (front ++ [directory]) ++ "/") = .ok false

/-- A file below a root that passes the filters, with nothing but directories on the way. -/
structure Listed (top : FileTree) (settings : Settings) (root : String) (names : List String) :
    Prop where
  exists_file : ∃ place entries content, top.lookup root = .ok place ∧
    place.tree = .directory entries ∧
    top.standsAt? (place.path ++ names) = some (.file content) ∧
    ∀ front back, names = front ++ back → back ≠ [] →
      top.standsAt? (place.path ++ front) = some .directory
  passes : Passes settings names

/-- A directory is searched unless it is one of version control or an exclude pattern matches it
with a slash at its end. -/
theorem keepsDirectory_iff
    (h : ∀ pattern ∈ settings.excluded, ∃ pieces, Glob.compile pattern = .ok pieces)
    {here : List String} {directory : String} :
    keepsDirectory (.of .empty settings false) here directory false = .ok true ↔
      directory ∉ [".git", ".hg", ".svn"] ∧ ∀ pattern ∈ settings.excluded,
        Glob.test pattern (PosixPath.joinParts (here ++ [directory]) ++ "/") = .ok false := by
  rw [← isVersionControl_eq_false_iff, ← Glob.testAny_eq_false_iff h, keepsDirectory,
    Bool.false_and, Bool.or_false]
  cases isVersionControl directory with
  | true => simp
  | false =>
      rw [if_neg (by simp), Outcome.map_eq_ok_iff]
      simp only [Bool.not_eq_true', exists_eq_right, true_and]
      rfl

/-- A file is found if its name ends in {lit}`.rs` and its path is selected. -/
theorem keepsFile_iff {here : List String} {name : String} :
    keepsFile (.of .empty settings false) here name false = .ok true ↔
      EndsInRs name ∧ Glob.selects settings.selected settings.excluded
        (PosixPath.joinParts (here ++ [name])) = .ok true := by
  rw [← isSourceName_iff, keepsFile, Bool.false_and, Bool.or_false]
  cases isSourceName name with
  | true =>
      rw [if_neg (by simp)]
      simp only [true_and]
      rfl
  | false => simp

/-- Settings keep a way down exactly when it passes the filters. -/
theorem kept_iff_passes
    (hpatterns : ∀ pattern ∈ settings.selected ++ settings.excluded,
      ∃ pieces, Glob.compile pattern = .ok pieces) :
    Kept settings [] names ↔ Passes settings names := by
  have hexcluded : ∀ pattern ∈ settings.excluded, ∃ pieces, Glob.compile pattern = .ok pieces :=
    fun pattern hpattern => hpatterns pattern (List.mem_append_right _ hpattern)
  rw [kept_iff]
  simp only [keepsFile_iff, keepsDirectory_iff hexcluded, List.nil_append,
    Glob.selects_eq_true_iff hpatterns]
  constructor
  · rintro ⟨parents, name, rfl, ⟨hsource, hselected, hnot⟩, hsearched⟩
    refine ⟨⟨parents, name, rfl, hsource⟩, hselected, hnot, ?_⟩
    intro front directory back hsplit hback
    obtain ⟨inner, last, rfl⟩ := (List.eq_nil_or_concat' back).resolve_left hback
    have hsame : parents ++ [name] = (front ++ directory :: inner) ++ [last] := by
      simp [hsplit]
    exact hsearched front directory inner (List.append_inj' hsame rfl).1
  · rintro ⟨⟨parents, name, rfl, hsource⟩, hselected, hnot, hsearched⟩
    refine ⟨parents, name, rfl, ⟨hsource, hselected, hnot⟩, ?_⟩
    rintro front directory back rfl
    exact hsearched front directory (back ++ [name]) (by simp) (by simp)

/-- Below a directory those files are listed that settings keep. -/
theorem listed_iff
    (hpatterns : ∀ pattern ∈ settings.selected ++ settings.excluded,
      ∃ pieces, Glob.compile pattern = .ok pieces)
    {place : Place} {entries : List (String × FileTree)} (hlookup : top.lookup root = .ok place)
    (hplace : place.tree = .directory entries) :
    Listed top settings root names ↔ Kept settings [] names ∧
      ∃ content, top.standsAt? (place.path ++ names) = some (.file content) := by
  rw [kept_iff_passes hpatterns]
  constructor
  · rintro ⟨⟨place', entries', content, hlookup', -, hstands, -⟩, hpasses⟩
    obtain rfl := Except.ok.inj (hlookup.symm.trans hlookup')
    exact ⟨hpasses, content, hstands⟩
  · rintro ⟨hpasses, content, hstands⟩
    refine ⟨⟨place, entries, content, hlookup, hplace, hstands, ?_⟩, hpasses⟩
    rintro front back rfl hback
    rw [← List.append_assoc] at hstands
    exact standsAt?_of_append hstands hback

/-- The path of a listed file is in normal form. -/
theorem Listed.absolute_eq {path : String}
    (h : Listed top settings (PosixPath.absolute path) names) (htop : top.WellFormed) :
    PosixPath.absolute (PosixPath.below (PosixPath.absolute path) (PosixPath.joinParts names)) =
      PosixPath.below (PosixPath.absolute path) (PosixPath.joinParts names) := by
  obtain ⟨place, entries, content, -, -, hstands, -⟩ := h.exists_file
  obtain ⟨parents, name, rfl, -⟩ := h.passes.source
  exact PosixPath.absolute_below path (by simp) fun part hpart =>
    htop.isName_of_standsAt? hstands part (List.mem_append_right _ hpart)

/-- What is listed in a tree is listed in every tree that keeps what stands there. -/
theorem Listed.of_keeps (h : Listed top settings root names) (hkeeps : Keeps top top') :
    Listed top' settings root names := by
  obtain ⟨⟨place, entries, content, hlookup, hplace, hstands, hway⟩, hpasses⟩ := h
  obtain ⟨tree, hlookup', hsame⟩ := hkeeps.lookup hlookup
  rw [hplace] at hsame
  cases tree with
  | file content => cases hsame
  | link target => cases hsame
  | directory entries' =>
      refine ⟨⟨_, entries', content, hlookup', rfl, hkeeps _ _ hstands, ?_⟩, hpasses⟩
      exact fun front back hsplit hback => hkeeps _ _ (hway front back hsplit hback)

/-- The source files below a root are the listed ones, in increasing order. -/
theorem exists_sourceFiles_listed (htop : top.WellFormed) (hroot : '\x00' ∉ root.toList)
    (hpatterns : ∀ pattern ∈ settings.selected ++ settings.excluded,
      ∃ pieces, Glob.compile pattern = .ok pieces) :
    ∃ paths, sourceFiles top settings root = .ok paths ∧ paths.Pairwise (· < ·) ∧
      ∀ path, path ∈ paths ↔ ∃ names, path = PosixPath.below root (PosixPath.joinParts names) ∧
        Listed top settings root names := by
  by_cases hdirectory : top.isDirectoryAt root = true
  · obtain ⟨paths, hpaths⟩ := exists_sourceFiles hdirectory hpatterns
    obtain ⟨place, entries, hlookup, hplace⟩ := exists_of_isDirectoryAt hdirectory
    refine ⟨paths, hpaths, sourceFiles_sorted htop hpaths, ?_⟩
    intro path
    rw [mem_sourceFiles_iff htop hlookup hplace hpaths]
    simp only [listed_iff hpatterns hlookup hplace]
  · refine ⟨[], sourceFiles_of_not_directory hroot hdirectory, .nil, ?_⟩
    intro path
    constructor
    · intro hpath
      simp at hpath
    · rintro ⟨names, -, ⟨⟨here, tree, left⟩, entries, content, hlookup, rfl, -⟩, -⟩
      exact absurd (by rw [isDirectoryAt, hlookup]) hdirectory

/-- The source files below a path, for a process with any working directory, are the listed ones, by
absolute paths in increasing order and each once, and they stay the same when directories list their
entries in other orders. -/
theorem discover_listed (htop : top.WellFormed) {workingDirectory path : String}
    (hpath : '\x00' ∉ (PosixPath.absoluteFrom workingDirectory path).toList)
    (hpatterns : ∀ pattern ∈ settings.selected ++ settings.excluded,
      ∃ pieces, Glob.compile pattern = .ok pieces) :
    ∃ paths, discover top settings workingDirectory path = .ok paths ∧ paths.Pairwise (· < ·) ∧
      (∀ file ∈ paths, PosixPath.absolute file = file) ∧
      (∀ file, file ∈ paths ↔ ∃ names,
        file = PosixPath.below (PosixPath.absoluteFrom workingDirectory path)
          (PosixPath.joinParts names) ∧
        Listed top settings (PosixPath.absoluteFrom workingDirectory path) names) ∧
      ∀ top', Relisted top top' → discover top' settings workingDirectory path = .ok paths := by
  unfold discover
  obtain ⟨paths, hpaths, hsorted, hmem⟩ := exists_sourceFiles_listed htop hpath hpatterns
  have habsolute : ∀ file ∈ paths, PosixPath.absolute file = file := by
    intro file hfile
    obtain ⟨names, rfl, hlisted⟩ := (hmem file).mp hfile
    exact hlisted.absolute_eq htop
  refine ⟨paths, hpaths, hsorted, habsolute, hmem, ?_⟩
  intro top' hrelisted
  have htop' := hrelisted.wellFormed htop
  obtain ⟨paths', hpaths', hsorted', hmem'⟩ := exists_sourceFiles_listed htop' hpath hpatterns
  have hsame : ∀ file, file ∈ paths' ↔ file ∈ paths := by
    intro file
    rw [hmem, hmem']
    constructor
    · rintro ⟨names, hfile, hlisted⟩
      exact ⟨names, hfile, hlisted.of_keeps (hrelisted.symm.keeps htop')⟩
    · rintro ⟨names, hfile, hlisted⟩
      exact ⟨names, hfile, hlisted.of_keeps (hrelisted.keeps htop)⟩
  rw [hpaths', hsorted'.eq_of_mem_iff hsorted hsame]

end Discovery

/-! ## Two files -/

namespace Sample

/-- The entries of a project with a file next to a directory. -/
def mixedEntries : List (String × FileTree) :=
  ("z.rs", .file ⟨[], user, none, false⟩) :: nestedEntries

/-- The project. -/
def mixed : FileTree :=
  .directory [("p", .directory mixedEntries)]

theorem wellFormed_mixed : mixed.WellFormed := by
  refine .directory _ (by decide) (by simp; decide) ?_
  rw [List.forall_mem_singleton]
  refine .directory _ (by decide) (by simp [mixedEntries, nestedEntries]; decide) ?_
  have hnested : (FileTree.directory nestedEntries).WellFormed :=
    @FileTree.WellFormed.of_entryAt? ["p"] nested _ wellFormed_nested rfl
  cases hnested with
  | directory _ _ _ hentries => exact List.forall_mem_cons.mpr ⟨.file _, hentries⟩

end Sample

namespace Discovery

/-- Files in several directories are listed below the root of all, in whatever order their project
lists its entries. -/
theorem discover_listed_sample :
    Sample.mixed.WellFormed ∧ '\x00' ∉ (PosixPath.absoluteFrom "/p/gen" "/").toList ∧
      (∀ pattern ∈ ["**/*.rs"] ++ ["target/**", "gen/*.txt"],
        ∃ pieces, Glob.compile pattern = .ok pieces) ∧
      ∃ paths, discover Sample.mixed (Sample.excluding ["target/**", "gen/*.txt"]) "/p/gen" "/" =
          .ok paths ∧ "/p/z.rs" ∈ paths ∧ "/p/gen/sub/a.rs" ∈ paths ∧
        discover (.directory [("p", .directory Sample.mixedEntries.reverse)])
          (Sample.excluding ["target/**", "gen/*.txt"]) "/p/gen" "/" = .ok paths := by
  have hpatterns : ∀ pattern ∈ ["**/*.rs"] ++ ["target/**", "gen/*.txt"],
      ∃ pieces, Glob.compile pattern = .ok pieces := by
    simp only [List.cons_append, List.nil_append, List.forall_mem_cons]
    exact ⟨⟨_, rfl⟩, ⟨_, rfl⟩, ⟨_, rfl⟩, by simp⟩
  have hroot : PosixPath.absoluteFrom "/p/gen" "/" = "/" := by decide
  have hnull : '\x00' ∉ (PosixPath.absoluteFrom "/p/gen" "/").toList := by decide
  have hlookup : Sample.mixed.lookup "/" =
      .ok ⟨[], .directory [("p", .directory Sample.mixedEntries)], 40⟩ := rfl
  obtain ⟨paths, hpaths, -, -, hmem, hrelisted⟩ := @discover_listed Sample.mixed
    (Sample.excluding ["target/**", "gen/*.txt"]) Sample.wellFormed_mixed "/p/gen" "/" hnull
    hpatterns
  rw [hroot] at hmem
  refine ⟨Sample.wellFormed_mixed, hnull, hpatterns, paths, hpaths, ?_, ?_, ?_⟩
  · refine (hmem _).mpr ⟨["p", "z.rs"], by decide, ?_⟩
    rw [listed_iff hpatterns hlookup rfl]
    exact ⟨⟨rfl, rfl⟩, _, rfl⟩
  · refine (hmem _).mpr ⟨["p", "gen", "sub", "a.rs"], by decide, ?_⟩
    rw [listed_iff hpatterns hlookup rfl]
    exact ⟨⟨rfl, rfl, rfl, rfl⟩, _, rfl⟩
  · apply hrelisted
    exact @FileTree.Relisted.entry [] [] "p" _ _ (.perm (List.reverse_perm _).symm)

end Discovery

end CrateAtlas
