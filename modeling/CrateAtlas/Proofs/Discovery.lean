import CrateAtlas.FileTree.Discovery
import CrateAtlas.Proofs.Outcome
import CrateAtlas.Proofs.PosixPath
import Mathlib.Data.List.Nodup

/-!
# What discovery finds

Every directory of a file tree lists its entries under distinct names.  A walk that follows no
links therefore comes to every source file on one way only, and the paths that it reports are
distinct.

Main results:

- Theorem {lit}`FileTree.WellFormed.of_lookup`: what is looked up in a well-formed tree is well
  formed.
- Theorem {lit}`settle_lists`: a directory whose subdirectories are listed without repetition is
  listed without repetition.
- Theorem {lit}`sourceFiles_relative`: the source files of a project have distinct paths in it, and
  their paths end as those of source files do.
-/

namespace CrateAtlas

/-! ## File trees -/

namespace FileTree

/-- What a file system promises: the entries of a directory have distinct names, each of which is
a proper name. -/
inductive WellFormed : FileTree → Prop where
  | file (content : FileContent) : WellFormed (.file content)
  | link (target : String) : WellFormed (.link target)
  | directory (entries : List (String × FileTree)) :
      (entries.map Prod.fst).Nodup → (∀ entry ∈ entries, PosixPath.IsName entry.1) →
      (∀ entry ∈ entries, WellFormed entry.2) → WellFormed (.directory entries)

/-- The entries of a well-formed tree are well formed. -/
theorem WellFormed.of_entryAt? {parts : List String} :
    ∀ {tree entry : FileTree}, tree.WellFormed → tree.entryAt? parts = some entry →
      entry.WellFormed := by
  induction parts with
  | nil =>
      intro tree entry h hentry
      rw [entryAt?, Option.some.injEq] at hentry
      exact hentry ▸ h
  | cons name rest ih =>
      intro tree entry h hentry
      cases h with
      | file content => simp [entryAt?] at hentry
      | link target => simp [entryAt?] at hentry
      | directory entries _ _ hentries =>
          rw [entryAt?] at hentry
          split at hentry
          · rename_i found hfound
            exact ih (hentries found (List.mem_of_find?_eq_some hfound)) hentry
          · contradiction

/-- A path that is followed leads to an entry of the tree. -/
theorem entryAt?_of_followWith {top : FileTree} {linksLeft : Nat}
    {onLink : List String → List String → Except PathError Place}
    (hlink : ∀ here rest place, onLink here rest = .ok place →
      top.entryAt? place.path = some place.tree) {parts : List String} :
    ∀ {here : List String} {place : Place},
      followWith top linksLeft onLink here parts = .ok place →
      top.entryAt? place.path = some place.tree := by
  induction parts with
  | nil =>
      intro here place h
      rw [followWith] at h
      split at h
      · rename_i tree htree
        cases h
        exact htree
      · contradiction
  | cons part rest ih =>
      intro here place h
      rw [followWith] at h
      split at h
      · split at h
        · exact ih h
        · split at h
          · exact ih h
          · split at h
            · contradiction
            · split at h
              · contradiction
              · exact hlink _ _ _ h
              · exact ih h
      · contradiction
      · contradiction

theorem entryAt?_of_follow {top : FileTree} {links : Nat} :
    ∀ {here parts : List String} {place : Place}, top.follow links here parts = .ok place →
      top.entryAt? place.path = some place.tree := by
  induction links with
  | zero =>
      intro here parts place h
      rw [follow] at h
      exact entryAt?_of_followWith (by simp) h
  | succ links ih =>
      intro here parts place h
      rw [follow] at h
      exact entryAt?_of_followWith (fun here rest place hplace => ih hplace) h

/-- What is looked up in a well-formed tree is well formed. -/
theorem WellFormed.of_lookup {top : FileTree} {path : String} {place : Place}
    (h : top.WellFormed) (hplace : top.lookup path = .ok place) : place.tree.WellFormed := by
  unfold lookup at hplace
  obtain ⟨-, -, hfollow⟩ := Outcome.bind_eq_ok_iff.mp hplace
  exact h.of_entryAt? (entryAt?_of_follow hfollow)

end FileTree

namespace Discovery

/-! ## Listings -/

/-- The way down to a source file. -/
structure IsSource (names : List String) : Prop where
  isName : ∀ name ∈ names, PosixPath.IsName name
  last : ∃ front name, names = front ++ [name] ∧ isSourceName name = true

/-- Paths of source files below a directory, none of them twice. -/
structure Lists (here : List String) (paths : List (List String)) : Prop where
  nodup : paths.Nodup
  below : ∀ path ∈ paths, ∃ names, path = here ++ names ∧ IsSource names

theorem IsSource.ne_nil {names : List String} (h : IsSource names) : names ≠ [] := by
  obtain ⟨front, name, rfl, -⟩ := h.last
  simp

theorem IsSource.cons {name : String} {names : List String} (hname : PosixPath.IsName name)
    (h : IsSource names) : IsSource (name :: names) := by
  obtain ⟨front, last, rfl, hlast⟩ := h.last
  refine ⟨?_, name :: front, last, rfl, hlast⟩
  intro part hpart
  rcases List.mem_cons.mp hpart with rfl | hpart
  · exact hname
  · exact h.isName part hpart

/-- What an entry of a directory is to a walk that follows no links: links do not count, and
subdirectories are listed without repetition. -/
def Found.Sound (here : List String) (name : String) : Found → Prop
  | .directory false walk => ∀ paths, walk () = .ok paths → Lists (here ++ [name]) paths
  | _ => True

variable {plan : Plan} {here : List String} {entries : List (String × Found)}

/-- Without following links only true subdirectories are searched. -/
theorem viaLink_of_keepsDirectory (hplan : plan.followLinks = false) {name : String}
    {viaLink : Bool} (h : keepsDirectory plan here name viaLink = .ok true) : viaLink = false := by
  cases viaLink with
  | false => rfl
  | true => simp [keepsDirectory, hplan] at h

/-- A file that is found has the name of a source file. -/
theorem isSourceName_of_keepsFile {name : String} {viaLink : Bool}
    (h : keepsFile plan here name viaLink = .ok true) : isSourceName name = true := by
  cases hname : isSourceName name with
  | true => rfl
  | false => simp [keepsFile, hname] at h

/-- The walks that are run are those of subdirectories, in order and each once. -/
theorem exists_of_keptWalks (hplan : plan.followLinks = false) :
    ∀ {walks : List (Unit → Walk)}, keptWalks plan here entries = .ok walks →
      ∃ kept : List (String × (Unit → Walk)), walks = kept.map Prod.snd ∧
        (kept.map Prod.fst).Sublist (entries.map Prod.fst) ∧
        ∀ sub ∈ kept, (sub.1, Found.directory false sub.2) ∈ entries := by
  induction entries with
  | nil =>
      intro walks h
      cases h
      exact ⟨[], rfl, .slnil, by simp⟩
  | cons entry rest ih =>
      intro walks h
      obtain ⟨name, found⟩ := entry
      cases found with
      | file viaLink =>
          obtain ⟨kept, hwalks, hsub, hmem⟩ := ih h
          exact ⟨kept, hwalks, hsub.cons _, fun sub hkept => by simp [hmem sub hkept]⟩
      | nothing =>
          obtain ⟨kept, hwalks, hsub, hmem⟩ := ih h
          exact ⟨kept, hwalks, hsub.cons _, fun sub hkept => by simp [hmem sub hkept]⟩
      | directory viaLink walk =>
          rw [keptWalks] at h
          simp only [Outcome.bind_eq_ok_iff, Outcome.pure_eq_ok_iff] at h
          obtain ⟨keep, hkeep, later, hlater, rfl⟩ := h
          obtain ⟨kept, rfl, hsub, hmem⟩ := ih hlater
          cases keep with
          | false => exact ⟨kept, rfl, hsub.cons _, fun sub hkept => by simp [hmem sub hkept]⟩
          | true =>
              have hlink := viaLink_of_keepsDirectory hplan hkeep
              subst hlink
              refine ⟨(name, walk) :: kept, rfl, hsub.cons_cons _, ?_⟩
              intro sub hkept
              rcases List.mem_cons.mp hkept with rfl | hkept
              · simp
              · simp [hmem sub hkept]

/-- The files that are found are entries with the name of a source file, in order and each
once. -/
theorem exists_of_keptFiles :
    ∀ {files : List (List String)}, keptFiles plan here entries = .ok files →
      ∃ names : List String, files = names.map (fun name => here ++ [name]) ∧
        names.Sublist (entries.map Prod.fst) ∧ ∀ name ∈ names, isSourceName name = true := by
  induction entries with
  | nil =>
      intro files h
      cases h
      exact ⟨[], rfl, .slnil, by simp⟩
  | cons entry rest ih =>
      intro files h
      obtain ⟨name, found⟩ := entry
      cases found with
      | directory viaLink walk =>
          obtain ⟨names, hfiles, hsub, hmem⟩ := ih h
          exact ⟨names, hfiles, hsub.cons _, hmem⟩
      | nothing =>
          obtain ⟨names, hfiles, hsub, hmem⟩ := ih h
          exact ⟨names, hfiles, hsub.cons _, hmem⟩
      | file viaLink =>
          rw [keptFiles] at h
          simp only [Outcome.bind_eq_ok_iff, Outcome.pure_eq_ok_iff] at h
          obtain ⟨keep, hkeep, later, hlater, rfl⟩ := h
          obtain ⟨names, rfl, hsub, hmem⟩ := ih hlater
          cases keep with
          | false => exact ⟨names, rfl, hsub.cons _, hmem⟩
          | true =>
              refine ⟨name :: names, rfl, hsub.cons_cons _, ?_⟩
              intro part hpart
              rcases List.mem_cons.mp hpart with rfl | hpart
              · exact isSourceName_of_keepsFile hkeep
              · exact hmem part hpart

/-- Walks of different subdirectories report different paths. -/
theorem nodup_of_runWalks {kept : List (String × (Unit → Walk))}
    (hsound : ∀ sub ∈ kept, ∀ paths, sub.2 () = .ok paths → Lists (here ++ [sub.1]) paths) :
    ∀ {found : List (List String)}, (kept.map Prod.fst).Nodup →
      runWalks (kept.map Prod.snd) = .ok found →
      found.Nodup ∧ ∀ path ∈ found, ∃ sub ∈ kept, ∃ names,
        path = here ++ sub.1 :: names ∧ IsSource names := by
  induction kept with
  | nil =>
      intro found _ h
      cases h
      exact ⟨List.nodup_nil, by simp⟩
  | cons sub rest ih =>
      intro found hnodup h
      rw [List.map_cons, runWalks] at h
      simp only [Outcome.bind_eq_ok_iff, Outcome.pure_eq_ok_iff] at h
      obtain ⟨first, hfirst, later, hlater, rfl⟩ := h
      rw [List.map_cons, List.nodup_cons] at hnodup
      have hlists := hsound sub (by simp) first hfirst
      obtain ⟨hnodupLater, hbelowLater⟩ :=
        ih (fun sub hsub => hsound sub (by simp [hsub])) hnodup.2 hlater
      have hbelow : ∀ path ∈ first, ∃ names, path = here ++ sub.1 :: names ∧ IsSource names := by
        intro path hpath
        obtain ⟨names, rfl, hsource⟩ := hlists.below path hpath
        exact ⟨names, by simp, hsource⟩
      constructor
      · apply hlists.nodup.append hnodupLater
        intro path hpath hpath'
        obtain ⟨names, hnames, -⟩ := hbelow path hpath
        obtain ⟨other, hother, names', hnames', -⟩ := hbelowLater path hpath'
        have hsame : sub.1 :: names = other.1 :: names' :=
          List.append_cancel_left (hnames.symm.trans hnames')
        have hname : sub.1 = other.1 := (List.cons.inj hsame).1
        exact hnodup.1 (hname ▸ List.mem_map_of_mem hother)
      · intro path hpath
        rcases List.mem_append.mp hpath with hpath | hpath
        · exact ⟨sub, by simp, hbelow path hpath⟩
        · obtain ⟨other, hother, hrest⟩ := hbelowLater path hpath
          exact ⟨other, by simp [hother], hrest⟩

/-- A directory with distinct names whose subdirectories are listed without repetition is listed
without repetition. -/
theorem settle_lists (hplan : plan.followLinks = false) (hnodup : (entries.map Prod.fst).Nodup)
    (hname : ∀ entry ∈ entries, PosixPath.IsName entry.1)
    (hsound : ∀ entry ∈ entries, entry.2.Sound here entry.1) {paths : List (List String)}
    (h : settle plan here entries = .ok paths) : Lists here paths := by
  unfold settle at h
  simp only [Outcome.bind_eq_ok_iff, Outcome.pure_eq_ok_iff] at h
  obtain ⟨walks, hwalks, files, hfiles, below, hbelow, rfl⟩ := h
  have hperm := List.mergeSort_perm entries fun a b => decide (a.1 ≤ b.1)
  have hsorted := (hperm.map Prod.fst).nodup_iff.mpr hnodup
  have hnames : ∀ name ∈ (entries.mergeSort fun a b => decide (a.1 ≤ b.1)).map Prod.fst,
      PosixPath.IsName name := by
    intro name hmem
    obtain ⟨entry, hentry, rfl⟩ := List.mem_map.mp hmem
    exact hname entry (hperm.mem_iff.mp hentry)
  obtain ⟨kept, rfl, hkept, hmem⟩ := exists_of_keptWalks hplan hwalks
  obtain ⟨names, rfl, hfilesSub, hsource⟩ := exists_of_keptFiles hfiles
  obtain ⟨hnodupBelow, hpathsBelow⟩ := nodup_of_runWalks
    (fun sub hsub => hsound _ (hperm.mem_iff.mp (hmem sub hsub))) (hsorted.sublist hkept) hbelow
  constructor
  · have hinjective : Function.Injective fun name : String => here ++ [name] := by
      intro a b hab
      simpa using hab
    apply ((hsorted.sublist hfilesSub).map hinjective).append hnodupBelow
    -- A file of this directory is one step down, a file of a subdirectory further.
    intro path hpath hpath'
    obtain ⟨name, -, rfl⟩ := List.mem_map.mp hpath
    obtain ⟨sub, -, deeper, hdeeper, hdeeperSource⟩ := hpathsBelow _ hpath'
    have hsame : [name] = sub.1 :: deeper := List.append_cancel_left hdeeper
    exact hdeeperSource.ne_nil (List.cons.inj hsame).2.symm
  · intro path hpath
    rcases List.mem_append.mp hpath with hpath | hpath
    · obtain ⟨name, hmemName, rfl⟩ := List.mem_map.mp hpath
      refine ⟨[name], rfl, ?_, [], name, rfl, hsource name hmemName⟩
      intro part hpart
      rw [List.mem_singleton.mp hpart]
      exact hnames name (hfilesSub.subset hmemName)
    · obtain ⟨sub, hsub, deeper, rfl, hdeeperSource⟩ := hpathsBelow path hpath
      have hsubName := hnames sub.1 (hkept.subset (List.mem_map_of_mem hsub))
      exact ⟨sub.1 :: deeper, rfl, hdeeperSource.cons hsubName⟩

/-! ## The walk -/

theorem classifyAll_eq_map (plan : Plan)
    (onLink : List String → List String → String → Found) (place here : List String)
    (entries : List (String × FileTree)) :
    classifyAll plan onLink place here entries =
      entries.map fun entry => (entry.1, classify plan onLink place here entry.1 entry.2) := by
  induction entries with
  | nil => rw [classifyAll, List.map_nil]
  | cons entry rest ih => rw [classifyAll, List.map_cons, ih]

/-- The entries of a well-formed directory can be listed as soon as each of them is sound. -/
theorem lists_of_settle_classifyAll (hplan : plan.followLinks = false)
    {onLink : List String → List String → String → Found} {place : List String}
    {entries : List (String × FileTree)} (hnodup : (entries.map Prod.fst).Nodup)
    (hname : ∀ entry ∈ entries, PosixPath.IsName entry.1)
    (hsound : ∀ entry ∈ entries, ∀ place here name,
      (classify plan onLink place here name entry.2).Sound here name)
    {paths : List (List String)}
    (h : settle plan here (classifyAll plan onLink place here entries) = .ok paths) :
    Lists here paths := by
  rw [classifyAll_eq_map] at h
  refine settle_lists hplan ?_ ?_ ?_ h
  · rw [List.map_map]
    exact hnodup
  · intro entry hentry
    obtain ⟨found, hfound, rfl⟩ := List.mem_map.mp hentry
    exact hname found hfound
  · intro entry hentry
    obtain ⟨found, hfound, rfl⟩ := List.mem_map.mp hentry
    exact hsound found hfound _ _ _

/-- The entries of well-formed trees are sound to a walk to which links are. -/
theorem classify_sound (hplan : plan.followLinks = false)
    {onLink : List String → List String → String → Found}
    (hlink : ∀ place here name, (onLink place here name).Sound here name) {tree : FileTree}
    (htree : tree.WellFormed) :
    ∀ place here name, (classify plan onLink place here name tree).Sound here name := by
  induction htree with
  | file content =>
      intro place here name
      rw [classify]
      trivial
  | link target =>
      intro place here name
      rw [classify]
      exact hlink place here name
  | directory entries hnodup hname _ ih =>
      intro place here name
      rw [classify]
      intro paths hpaths
      exact lists_of_settle_classifyAll hplan hnodup hname ih hpaths

/-- A walk that follows no links lists the source files of a well-formed directory. -/
theorem walkDirectory_lists (hplan : plan.followLinks = false) {depth linksLeft : Nat}
    {place : List String} {entries : List (String × FileTree)}
    (htree : (FileTree.directory entries).WellFormed) {paths : List (List String)}
    (h : walkDirectory plan depth linksLeft place here entries = .ok paths) : Lists here paths := by
  cases htree with
  | directory _ hnodup hname hentries =>
      cases depth with
      | zero =>
          rw [walkDirectory] at h
          refine lists_of_settle_classifyAll hplan hnodup hname
            (fun entry hentry => classify_sound hplan ?_ (hentries entry hentry)) h
          intro place here name
          trivial
      | succ depth =>
          rw [walkDirectory] at h
          refine lists_of_settle_classifyAll hplan hnodup hname
            (fun entry hentry => classify_sound hplan ?_ (hentries entry hentry)) h
          intro place here name
          split <;> trivial

/-- The source files of a directory are the paths of a listing, in some order. -/
theorem exists_of_sourceFiles {top : FileTree} {settings : Settings} {root : String}
    {paths : List String} (htop : top.WellFormed)
    (h : sourceFiles top settings root = .ok paths) :
    ∃ found, Lists [] found ∧
      paths.Perm (found.map fun parts => PosixPath.below root (PosixPath.joinParts parts)) := by
  obtain ⟨outcome, hwalk, rfl⟩ := Outcome.map_eq_ok_iff.mp h
  have hperm := List.mergeSort_perm outcome.paths fun a b => decide (a ≤ b)
  unfold walk at hwalk
  split at hwalk
  · rename_i place entries left hlookup
    split at hwalk
    · rename_i found hfound
      cases hwalk
      have hdirectory : (FileTree.directory entries).WellFormed := htop.of_lookup hlookup
      exact ⟨found, walkDirectory_lists rfl hdirectory hfound, hperm⟩
    · contradiction
  · contradiction
  · cases hwalk
    exact ⟨[], ⟨List.nodup_nil, by simp⟩, hperm⟩

/-- The source files of a project have distinct paths in it, and these end as the paths of source
files do. -/
theorem sourceFiles_relative {top : FileTree} {settings : Settings} {root : String}
    {paths : List String} (htop : top.WellFormed)
    (h : sourceFiles top settings root = .ok paths) :
    (paths.map fun path => PosixPath.relative path root).Nodup ∧
      ∀ path ∈ paths, (PosixPath.relative path root).toList.getLast? = some 's' := by
  obtain ⟨found, hlists, hperm⟩ := exists_of_sourceFiles htop h
  have hsource : ∀ parts ∈ found, IsSource parts := by
    intro parts hparts
    obtain ⟨names, rfl, hnames⟩ := hlists.below parts hparts
    exact hnames
  have hrelative : ∀ parts ∈ found,
      PosixPath.relative (PosixPath.below root (PosixPath.joinParts parts)) root =
        PosixPath.joinParts parts := by
    intro parts hparts
    exact PosixPath.relative_below root (hsource parts hparts).ne_nil (hsource parts hparts).isName
  constructor
  · rw [(hperm.map _).nodup_iff, List.map_map]
    apply List.Nodup.map_on _ hlists.nodup
    intro parts hparts parts' hparts' heq
    simp only [Function.comp_apply, hrelative parts hparts, hrelative parts' hparts'] at heq
    exact PosixPath.joinParts_inj (hsource parts hparts).ne_nil (hsource parts' hparts').ne_nil
      (hsource parts hparts).isName (hsource parts' hparts').isName heq
  · intro path hpath
    obtain ⟨parts, hparts, rfl⟩ := List.mem_map.mp (hperm.mem_iff.mp hpath)
    obtain ⟨front, name, hlast, hname⟩ := (hsource parts hparts).last
    rw [hrelative parts hparts, hlast]
    exact PosixPath.getLast?_joinParts_of_extension front (by simpa [isSourceName] using hname)

end Discovery

end CrateAtlas
