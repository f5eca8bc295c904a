import CrateAtlas.Proofs.Discovery

/-!
# Walks without links

A walk settles each directory from what its entries are to it, and those are settled in turn.  One
rule says what to prove of a walk that follows no links: what a directory passes on, given that its
subdirectories do.  Two facts about walks come from it.

Main results:

- Theorem {lit}`walkDirectory_of_step`: what every directory passes on holds of every walk.
- Theorem {lit}`blames_of_sourceFiles`: the search for source files fails at a pattern of the
  settings that cannot be read, and at nothing else.
- Theorem {lit}`mem_walkDirectory_iff`: the paths that a walk reports are the ways down to files
  that are kept.
-/

namespace CrateAtlas

/-- Trees are handled from the leaves up: each directory after its entries. -/
theorem FileTree.inductionOn {P : FileTree → Prop} (file : ∀ content, P (.file content))
    (link : ∀ target, P (.link target))
    (directory : ∀ entries, (∀ entry ∈ entries, P entry.2) → P (.directory entries)) :
    ∀ tree, P tree
  | .file content => file content
  | .link target => link target
  | .directory entries =>
      directory entries fun entry _ => inductionOn file link directory entry.2
decreasing_by
  rename_i hentry
  have hsize := List.sizeOf_lt_of_mem hentry
  have hpair : sizeOf entry = 1 + sizeOf entry.1 + sizeOf entry.2 := rfl
  simp only [FileTree.directory.sizeOf_spec]
  omega

namespace Discovery

variable {plan : Plan} {here : List String}

/-! ## One rule for walks -/

/-- An entry that a walk reaches through a link, or not at all. -/
def Found.OffLimits : Found → Prop
  | .file viaLink => viaLink = true
  | .directory viaLink _ => viaLink = true
  | .nothing => True

/-- What an entry is to a walk that follows no links: a file, a subdirectory whose walk meets
{lit}`Spec`, or off limits. -/
inductive Seen (Spec : List String → List (String × FileTree) → Walk → Prop) (here : List String)
    (name : String) : FileTree → Found → Prop where
  | file (content : FileContent) : Seen Spec here name (.file content) (.file false)
  | directory {entries : List (String × FileTree)} {walk : Unit → Walk} :
      Spec (here ++ [name]) entries (walk ()) →
      Seen Spec here name (.directory entries) (.directory false walk)
  | link (target : String) {found : Found} : found.OffLimits →
      Seen Spec here name (.link target) found

section Seen

variable {Spec : List String → List (String × FileTree) → Walk → Prop} {name : String}
  {tree : FileTree} {found : Found}

theorem Seen.eq_file {content : FileContent} (h : Seen Spec here name (.file content) found) :
    found = .file false := by
  cases h
  rfl

theorem Seen.exists_walk {inner : List (String × FileTree)}
    (h : Seen Spec here name (.directory inner) found) :
    ∃ walk, found = .directory false walk ∧ Spec (here ++ [name]) inner (walk ()) := by
  cases h with
  | directory hspec => exact ⟨_, rfl, hspec⟩

theorem Seen.exists_content (h : Seen Spec here name tree (.file false)) :
    ∃ content, tree = .file content := by
  cases h with
  | file content => exact ⟨content, rfl⟩
  | link target hlink => cases hlink

theorem Seen.exists_inner {walk : Unit → Walk}
    (h : Seen Spec here name tree (.directory false walk)) :
    ∃ inner, tree = .directory inner ∧ Spec (here ++ [name]) inner (walk ()) := by
  cases h with
  | directory hspec => exact ⟨_, rfl, hspec⟩
  | link target hlink => cases hlink

theorem Seen.offLimits {target : String} (h : Seen Spec here name (.link target) found) :
    found.OffLimits := by
  cases h with
  | link target hlink => exact hlink

end Seen

/-- What every directory passes on when its subdirectories do holds of every walk. -/
theorem walkDirectory_of_step (plan : Plan)
    (Spec : List String → List (String × FileTree) → Walk → Prop)
    (step : ∀ here (entries : List (String × FileTree)) (see : String × FileTree → Found),
      (∀ entry ∈ entries, Seen Spec here entry.1 entry.2 (see entry)) →
      Spec here entries (settle plan here (entries.map fun entry => (entry.1, see entry)))) :
    ∀ depth linksLeft place here entries,
      Spec here entries (walkDirectory plan depth linksLeft place here entries) := by
  have hclassify : ∀ onLink : List String → List String → String → Found,
      (∀ place here name, (onLink place here name).OffLimits) →
      ∀ tree place here name, Seen Spec here name tree (classify plan onLink place here name tree)
      := by
    intro onLink hlink
    refine FileTree.inductionOn ?_ ?_ ?_
    · intro content place here name
      rw [classify]
      exact .file content
    · intro target place here name
      rw [classify]
      exact .link target (hlink place here name)
    · intro entries ih place here name
      rw [classify]
      refine .directory ?_
      rw [classifyAll_eq_map]
      exact step _ entries (fun entry => classify plan onLink (place ++ [name]) (here ++ [name])
        entry.1 entry.2) fun entry hentry => ih entry hentry _ _ _
  intro depth linksLeft place here entries
  cases depth with
  | zero =>
      rw [walkDirectory, classifyAll_eq_map]
      exact step _ entries (fun entry => classify plan _ place here entry.1 entry.2)
        fun entry _ => hclassify (fun _ _ _ => .nothing) (fun _ _ _ => trivial) _ _ _ _
  | succ depth =>
      rw [walkDirectory, classifyAll_eq_map]
      refine step _ entries (fun entry => classify plan _ place here entry.1 entry.2)
        fun entry _ => hclassify _ ?_ _ _ _ _
      intro place here name
      split <;> trivial

/-! ## Why a walk fails -/

/-- One of the patterns of a plan cannot be read. -/
def Plan.Blames (plan : Plan) (bad : Glob.BadPattern) : Prop :=
  ∃ pattern ∈ plan.selected ++ plan.excluded, Glob.compile pattern = .error bad

variable {bad : Glob.BadPattern} {entries : List (String × Found)}

theorem exists_of_testAny {patterns : List String} {path : String}
    (h : Glob.testAny patterns path = .error bad) :
    ∃ pattern ∈ patterns, Glob.compile pattern = .error bad := by
  induction patterns with
  | nil => cases h
  | cons pattern rest ih =>
      rw [Glob.testAny] at h
      rcases Outcome.bind_eq_error_iff.mp h with htest | ⟨covered, -, h⟩
      · exact ⟨pattern, List.mem_cons_self, Outcome.map_eq_error_iff.mp htest⟩
      · split at h
        · cases h
        · obtain ⟨later, hlater, hbad⟩ := ih h
          exact ⟨later, List.mem_cons_of_mem _ hlater, hbad⟩

theorem blames_of_keepsDirectory {name : String} {viaLink : Bool}
    (h : keepsDirectory plan here name viaLink = .error bad) : plan.Blames bad := by
  unfold keepsDirectory at h
  split at h
  · cases h
  · obtain ⟨pattern, hpattern, hbad⟩ := exists_of_testAny (Outcome.map_eq_error_iff.mp h)
    exact ⟨pattern, List.mem_append_right _ hpattern, hbad⟩

theorem blames_of_keepsFile {name : String} {viaLink : Bool}
    (h : keepsFile plan here name viaLink = .error bad) : plan.Blames bad := by
  unfold keepsFile at h
  split at h
  · cases h
  · rcases Outcome.bind_eq_error_iff.mp h with h | ⟨excluded, -, h⟩
    · obtain ⟨pattern, hpattern, hbad⟩ := exists_of_testAny h
      exact ⟨pattern, List.mem_append_right _ hpattern, hbad⟩
    · split at h
      · cases h
      · obtain ⟨pattern, hpattern, hbad⟩ := exists_of_testAny h
        exact ⟨pattern, List.mem_append_left _ hpattern, hbad⟩

theorem blames_of_keptWalks (h : keptWalks plan here entries = .error bad) : plan.Blames bad := by
  induction entries with
  | nil => cases h
  | cons entry rest ih =>
      obtain ⟨name, found⟩ := entry
      cases found with
      | file viaLink => exact ih h
      | nothing => exact ih h
      | directory viaLink walk =>
          rw [keptWalks] at h
          rcases Outcome.bind_eq_error_iff.mp h with h | ⟨keep, -, h⟩
          · exact blames_of_keepsDirectory h
          · rcases Outcome.bind_eq_error_iff.mp h with h | ⟨later, -, h⟩
            · exact ih h
            · cases h

theorem blames_of_keptFiles (h : keptFiles plan here entries = .error bad) : plan.Blames bad := by
  induction entries with
  | nil => cases h
  | cons entry rest ih =>
      obtain ⟨name, found⟩ := entry
      cases found with
      | directory viaLink walk => exact ih h
      | nothing => exact ih h
      | file viaLink =>
          rw [keptFiles] at h
          rcases Outcome.bind_eq_error_iff.mp h with h | ⟨keep, -, h⟩
          · exact blames_of_keepsFile h
          · rcases Outcome.bind_eq_error_iff.mp h with h | ⟨later, -, h⟩
            · exact ih h
            · cases h

theorem exists_of_runWalks {walks : List (Unit → Walk)} (h : runWalks walks = .error bad) :
    ∃ walk ∈ walks, walk () = .error bad := by
  induction walks with
  | nil => cases h
  | cons walk rest ih =>
      rw [runWalks] at h
      rcases Outcome.bind_eq_error_iff.mp h with h | ⟨first, -, h⟩
      · exact ⟨walk, List.mem_cons_self, h⟩
      · rcases Outcome.bind_eq_error_iff.mp h with h | ⟨later, -, h⟩
        · obtain ⟨failing, hfailing, h⟩ := ih h
          exact ⟨failing, List.mem_cons_of_mem _ hfailing, h⟩
        · cases h

/-- A walk that follows no links fails only at a pattern that cannot be read. -/
theorem blames_of_walkDirectory (hplan : plan.followLinks = false) {depth linksLeft : Nat}
    {place : List String} {entries : List (String × FileTree)}
    (h : walkDirectory plan depth linksLeft place here entries = .error bad) :
    plan.Blames bad := by
  refine walkDirectory_of_step plan
    (fun _ _ walk => walk = .error bad → plan.Blames bad) ?_ _ _ _ _ _ h
  intro here entries see hsee h
  unfold settle at h
  rcases Outcome.bind_eq_error_iff.mp h with h | ⟨walks, hwalks, h⟩
  · exact blames_of_keptWalks h
  · rcases Outcome.bind_eq_error_iff.mp h with h | ⟨files, -, h⟩
    · exact blames_of_keptFiles h
    · rcases Outcome.bind_eq_error_iff.mp h with h | ⟨below, -, h⟩
      · obtain ⟨walk, hwalk, hfails⟩ := exists_of_runWalks h
        obtain ⟨kept, rfl, -, hkept⟩ := exists_of_keptWalks hplan hwalks
        obtain ⟨sub, hsub, rfl⟩ := List.mem_map.mp hwalk
        have hmem := (List.mergeSort_perm _ _).mem_iff.mp (hkept sub hsub)
        obtain ⟨entry, hentry, hfound⟩ := List.mem_map.mp hmem
        have hseen := hsee entry hentry
        rw [(Prod.mk.inj hfound).2] at hseen
        obtain ⟨inner, -, hspec⟩ := hseen.exists_inner
        exact hspec hfails
      · cases h

/-- The search for source files in a directory fails only at a pattern of the settings. -/
theorem blames_of_sourceFiles {top : FileTree} {settings : Settings} {root : String}
    {error : WalkError} (hroot : top.isDirectoryAt root = true)
    (h : sourceFiles top settings root = .error error) :
    ∃ bad, error = .badPattern bad ∧
      ∃ pattern ∈ settings.selected ++ settings.excluded, Glob.compile pattern = .error bad := by
  have hwalk := Outcome.map_eq_error_iff.mp h
  unfold walk at hwalk
  unfold FileTree.isDirectoryAt at hroot
  split at hroot
  · rename_i place entries left hlookup
    rw [show (Plan.of top settings false).top.lookup root = _ from hlookup] at hwalk
    simp only at hwalk
    split at hwalk
    · cases hwalk
    · rename_i bad hbad
      cases hwalk
      exact ⟨bad, rfl, blames_of_walkDirectory rfl hbad⟩
  · contradiction

/-- With patterns that can be read, the search succeeds. -/
theorem exists_sourceFiles {top : FileTree} {settings : Settings} {root : String}
    (hroot : top.isDirectoryAt root = true)
    (hpatterns : ∀ pattern ∈ settings.selected ++ settings.excluded,
      ∃ pieces, Glob.compile pattern = .ok pieces) :
    ∃ paths, sourceFiles top settings root = .ok paths := by
  cases h : sourceFiles top settings root with
  | ok paths => exact ⟨paths, rfl⟩
  | error error =>
      obtain ⟨bad, -, pattern, hpattern, hbad⟩ := blames_of_sourceFiles hroot h
      obtain ⟨pieces, hpieces⟩ := hpatterns pattern hpattern
      rw [hbad] at hpieces
      cases hpieces

/-! ## What a walk reports -/

theorem mem_keptWalks_iff {walks : List (Unit → Walk)} (h : keptWalks plan here entries = .ok walks)
    {walk : Unit → Walk} :
    walk ∈ walks ↔ ∃ name viaLink, (name, Found.directory viaLink walk) ∈ entries ∧
      keepsDirectory plan here name viaLink = .ok true := by
  induction entries generalizing walks with
  | nil =>
      cases h
      simp
  | cons entry rest ih =>
      obtain ⟨name, found⟩ := entry
      cases found with
      | file viaLink => simpa using ih h
      | nothing => simpa using ih h
      | directory viaLink first =>
          rw [keptWalks] at h
          simp only [Outcome.bind_eq_ok_iff, Outcome.pure_eq_ok_iff] at h
          obtain ⟨keep, hkeep, later, hlater, rfl⟩ := h
          simp only [List.mem_cons, or_and_right, exists_or, ← ih hlater, Prod.mk.injEq,
            Found.directory.injEq]
          cases keep <;> simp [hkeep]

theorem mem_keptFiles_iff {files : List (List String)}
    (h : keptFiles plan here entries = .ok files) {path : List String} :
    path ∈ files ↔ ∃ name viaLink, (name, Found.file viaLink) ∈ entries ∧
      keepsFile plan here name viaLink = .ok true ∧ path = here ++ [name] := by
  induction entries generalizing files with
  | nil =>
      cases h
      simp
  | cons entry rest ih =>
      obtain ⟨name, found⟩ := entry
      cases found with
      | directory viaLink walk => simpa using ih h
      | nothing => simpa using ih h
      | file viaLink =>
          rw [keptFiles] at h
          simp only [Outcome.bind_eq_ok_iff, Outcome.pure_eq_ok_iff] at h
          obtain ⟨keep, hkeep, later, hlater, rfl⟩ := h
          simp only [List.mem_cons, or_and_right, exists_or, ← ih hlater, Prod.mk.injEq,
            Found.file.injEq]
          cases keep <;> simp [hkeep]

theorem mem_runWalks_iff {walks : List (Unit → Walk)} {found : List (List String)}
    (h : runWalks walks = .ok found) :
    (∀ walk ∈ walks, ∃ paths, walk () = .ok paths) ∧
      ∀ path, path ∈ found ↔ ∃ walk ∈ walks, ∃ paths, walk () = .ok paths ∧ path ∈ paths := by
  induction walks generalizing found with
  | nil =>
      cases h
      simp
  | cons walk rest ih =>
      rw [runWalks] at h
      simp only [Outcome.bind_eq_ok_iff, Outcome.pure_eq_ok_iff] at h
      obtain ⟨first, hfirst, later, hlater, rfl⟩ := h
      obtain ⟨hruns, hmem⟩ := ih hlater
      refine ⟨List.forall_mem_cons.mpr ⟨⟨first, hfirst⟩, hruns⟩, fun path => ?_⟩
      rw [List.mem_append, hmem, List.exists_mem_cons_iff, hfirst]
      simp

/-- A walk lists the files that are kept and what the walks of kept subdirectories list, all of
which come to an end. -/
theorem mem_settle_iff {paths : List (List String)} (h : settle plan here entries = .ok paths) :
    (∀ name viaLink walk, (name, Found.directory viaLink walk) ∈ entries →
      keepsDirectory plan here name viaLink = .ok true → ∃ found, walk () = .ok found) ∧
    ∀ path, path ∈ paths ↔
      (∃ name viaLink, (name, Found.file viaLink) ∈ entries ∧
        keepsFile plan here name viaLink = .ok true ∧ path = here ++ [name]) ∨
      ∃ name viaLink walk found, (name, Found.directory viaLink walk) ∈ entries ∧
        keepsDirectory plan here name viaLink = .ok true ∧ walk () = .ok found ∧ path ∈ found := by
  unfold settle at h
  simp only [Outcome.bind_eq_ok_iff, Outcome.pure_eq_ok_iff] at h
  obtain ⟨walks, hwalks, files, hfiles, below, hbelow, rfl⟩ := h
  obtain ⟨hruns, hmem⟩ := mem_runWalks_iff hbelow
  have hsorted : ∀ entry, entry ∈ entries.mergeSort (fun a b => decide (a.1 ≤ b.1)) ↔
      entry ∈ entries := fun entry => (List.mergeSort_perm entries _).mem_iff
  have hkept := fun walk => @mem_keptWalks_iff _ _ _ _ hwalks walk
  simp only [hsorted] at hkept
  constructor
  · intro name viaLink walk hentry hkeeps
    exact hruns walk ((hkept walk).mpr ⟨name, viaLink, hentry, hkeeps⟩)
  · intro path
    rw [List.mem_append, mem_keptFiles_iff hfiles, hmem]
    simp only [hsorted, hkept]
    refine or_congr_right ⟨?_, ?_⟩
    · rintro ⟨walk, ⟨name, viaLink, hentry, hkeeps⟩, found, hfound, hpath⟩
      exact ⟨name, viaLink, walk, found, hentry, hkeeps, hfound, hpath⟩
    · rintro ⟨name, viaLink, walk, found, hentry, hkeeps, hfound, hpath⟩
      exact ⟨walk, ⟨name, viaLink, hentry, hkeeps⟩, found, hfound, hpath⟩

/-- A way down from a directory with the given entries: through subdirectories that are searched to
a file that is kept. -/
inductive Finds (plan : Plan) :
    (here : List String) → List (String × FileTree) → List String → Prop where
  | file {here name entries content} : (name, FileTree.file content) ∈ entries →
      keepsFile plan here name false = .ok true → Finds plan here entries [name]
  | directory {here name entries inner names} : (name, FileTree.directory inner) ∈ entries →
      keepsDirectory plan here name false = .ok true → Finds plan (here ++ [name]) inner names →
      Finds plan here entries (name :: names)

/-- Without following links only true files are found. -/
theorem viaLink_of_keepsFile (hplan : plan.followLinks = false) {name : String} {viaLink : Bool}
    (h : keepsFile plan here name viaLink = .ok true) : viaLink = false := by
  cases viaLink with
  | false => rfl
  | true => simp [keepsFile, hplan] at h

/-- The paths that a walk reports are the ways down from its directory. -/
theorem mem_walkDirectory_iff (hplan : plan.followLinks = false) {depth linksLeft : Nat}
    {place : List String} {entries : List (String × FileTree)} {paths : List (List String)}
    (h : walkDirectory plan depth linksLeft place here entries = .ok paths) {path : List String} :
    path ∈ paths ↔ ∃ names, path = here ++ names ∧ Finds plan here entries names := by
  refine walkDirectory_of_step plan
    (fun here entries walk => ∀ paths, walk = .ok paths → ∀ path,
      path ∈ paths ↔ ∃ names, path = here ++ names ∧ Finds plan here entries names)
    ?_ _ _ _ _ _ paths h path
  intro here entries see hsee paths h path
  obtain ⟨hruns, hmem⟩ := mem_settle_iff h
  rw [hmem]
  constructor
  · rintro (⟨name, viaLink, hentry, hkeeps, rfl⟩ |
      ⟨name, viaLink, walk, found, hentry, hkeeps, hfound, hpath⟩)
    · obtain rfl := viaLink_of_keepsFile hplan hkeeps
      obtain ⟨⟨_, tree⟩, htree, heq⟩ := List.mem_map.mp hentry
      obtain ⟨rfl, hseen⟩ := Prod.mk.inj heq
      obtain ⟨content, rfl⟩ := (hseen ▸ hsee _ htree).exists_content
      exact ⟨[_], rfl, .file htree hkeeps⟩
    · obtain rfl := viaLink_of_keepsDirectory hplan hkeeps
      obtain ⟨⟨_, tree⟩, htree, heq⟩ := List.mem_map.mp hentry
      obtain ⟨rfl, hseen⟩ := Prod.mk.inj heq
      obtain ⟨inner, rfl, hspec⟩ := (hseen ▸ hsee _ htree).exists_inner
      obtain ⟨names, rfl, hfinds⟩ := (hspec found hfound path).mp hpath
      exact ⟨_ :: names, by simp, .directory htree hkeeps hfinds⟩
  · rintro ⟨names, rfl, hfinds⟩
    cases hfinds with
    | @file _ name _ content htree hkeeps =>
        have hfound := List.mem_map_of_mem (f := fun entry => (entry.1, see entry)) htree
        simp only [(hsee _ htree).eq_file] at hfound
        exact .inl ⟨name, false, hfound, hkeeps, rfl⟩
    | @directory _ name _ inner rest htree hkeeps hfinds =>
        have hwalk := List.mem_map_of_mem (f := fun entry => (entry.1, see entry)) htree
        obtain ⟨walk, hseen, hspec⟩ := (hsee _ htree).exists_walk
        simp only [hseen] at hwalk
        obtain ⟨found, hfound⟩ := hruns name false walk hwalk hkeeps
        exact .inr ⟨name, false, walk, found, hwalk, hkeeps, hfound,
          (hspec found hfound _).mpr ⟨rest, by simp, hfinds⟩⟩

/-! ## Directories without subdirectories -/

/-- The files among the entries of a directory, as a walk sees them. -/
def plainFiles (entries : List (String × FileTree)) : List (String × Found) :=
  entries.filterMap fun entry =>
    match entry.2 with
    | .file _ => some (entry.1, .file false)
    | _ => none

/-- What is off limits is passed over. -/
theorem kept_cons_of_offLimits (hplan : plan.followLinks = false) {found : Found}
    (h : found.OffLimits) (name : String) (rest : List (String × Found)) :
    keptWalks plan here ((name, found) :: rest) = keptWalks plan here rest ∧
      keptFiles plan here ((name, found) :: rest) = keptFiles plan here rest := by
  cases found with
  | nothing => exact ⟨rfl, rfl⟩
  | file viaLink =>
      obtain rfl : viaLink = true := h
      have hkeeps : keepsFile plan here name true = .ok false := by
        simp [keepsFile, hplan]
      refine ⟨rfl, ?_⟩
      rw [keptFiles, hkeeps]
      exact bind_pure (keptFiles plan here rest)
  | directory viaLink walk =>
      obtain rfl : viaLink = true := h
      have hkeeps : keepsDirectory plan here name true = .ok false := by
        simp [keepsDirectory, hplan]
      refine ⟨?_, rfl⟩
      rw [keptWalks, hkeeps]
      exact bind_pure (keptWalks plan here rest)

/-- In a directory without subdirectories no walks are kept, and only plain files. -/
theorem kept_flat (hplan : plan.followLinks = false)
    {Spec : List String → List (String × FileTree) → Walk → Prop}
    {entries : List (String × FileTree)} {see : String × FileTree → Found}
    (hsee : ∀ entry ∈ entries, Seen Spec here entry.1 entry.2 (see entry))
    (hflat : ∀ entry ∈ entries, ∀ inner, entry.2 ≠ .directory inner) :
    keptWalks plan here (entries.map fun entry => (entry.1, see entry)) = .ok [] ∧
      keptFiles plan here (entries.map fun entry => (entry.1, see entry)) =
        keptFiles plan here (plainFiles entries) := by
  induction entries with
  | nil => exact ⟨rfl, rfl⟩
  | cons entry rest ih =>
      obtain ⟨name, tree⟩ := entry
      obtain ⟨hseen, hsee⟩ := List.forall_mem_cons.mp hsee
      obtain ⟨hnot, hflat⟩ := List.forall_mem_cons.mp hflat
      obtain ⟨hwalks, hfiles⟩ := ih hsee hflat
      rw [List.map_cons]
      cases tree with
      | directory inner => exact absurd rfl (hnot inner)
      | file content =>
          rw [hseen.eq_file]
          refine ⟨hwalks, ?_⟩
          show keptFiles plan here ((name, .file false) :: _) =
            keptFiles plan here ((name, .file false) :: plainFiles rest)
          rw [keptFiles, keptFiles, hfiles]
      | link target =>
          obtain ⟨hskipWalks, hskipFiles⟩ := @kept_cons_of_offLimits plan here hplan _
            hseen.offLimits name (rest.map fun entry => (entry.1, see entry))
          exact ⟨hskipWalks.trans hwalks, hskipFiles.trans hfiles⟩

/-- A directory without subdirectories whose entries are in order is settled by its files. -/
theorem walkDirectory_flat (hplan : plan.followLinks = false) {depth linksLeft : Nat}
    {place : List String} {entries : List (String × FileTree)}
    (hflat : ∀ entry ∈ entries, ∀ inner, entry.2 ≠ .directory inner)
    (hsorted : entries.Pairwise fun a b => a.1 ≤ b.1) :
    walkDirectory plan depth linksLeft place here entries =
      keptFiles plan here (plainFiles entries) := by
  refine walkDirectory_of_step plan
    (fun here entries walk => (∀ entry ∈ entries, ∀ inner, entry.2 ≠ .directory inner) →
      (entries.Pairwise fun a b => a.1 ≤ b.1) → walk = keptFiles plan here (plainFiles entries))
    ?_ _ _ _ _ _ hflat hsorted
  intro here entries see hsee hflat hsorted
  obtain ⟨hwalks, hfiles⟩ := kept_flat hplan hsee hflat
  rw [settle, List.mergeSort_of_pairwise (by simpa [List.pairwise_map] using hsorted), hwalks,
    hfiles]
  cases keptFiles plan here (plainFiles entries) with
  | error bad => rfl
  | ok files => exact congrArg Except.ok (List.append_nil files)

/-- The source files of a directory without subdirectories, whose entries are in order. -/
theorem sourceFiles_flat {top : FileTree} {settings : Settings} {root : String}
    {place : List String} {entries : List (String × FileTree)} {left : Nat}
    (hlookup : top.lookup root = .ok ⟨place, .directory entries, left⟩)
    (hflat : ∀ entry ∈ entries, ∀ inner, entry.2 ≠ .directory inner)
    (hsorted : entries.Pairwise fun a b => a.1 ≤ b.1) :
    sourceFiles top settings root =
      ((keptFiles (.of .empty settings false) [] (plainFiles entries)).mapError .badPattern).map
        fun found =>
          (found.map fun parts => PosixPath.below root (PosixPath.joinParts parts)).mergeSort
            fun a b => a ≤ b := by
  have htop : ∀ files, keptFiles (.of top settings false) [] files =
      keptFiles (.of .empty settings false) [] files := by
    intro files
    induction files with
    | nil => rfl
    | cons entry rest ih =>
        obtain ⟨name, found⟩ := entry
        cases found with
        | file viaLink =>
            rw [keptFiles, keptFiles, ih]
            rfl
        | directory viaLink walk => exact ih
        | nothing => exact ih
  have hplan : (Plan.of top settings false).followLinks = false := rfl
  rw [sourceFiles, walk, show (Plan.of top settings false).top.lookup root = _ from hlookup]
  simp only [walkDirectory_flat hplan hflat hsorted, htop]
  cases keptFiles (.of .empty settings false) [] (plainFiles entries) <;> rfl

/-- The source files of such a directory, if its patterns can be read and its paths are in order. -/
theorem sourceFiles_flat_ok {top : FileTree} {settings : Settings} {root : String}
    {place : List String} {entries : List (String × FileTree)} {left : Nat}
    (hlookup : top.lookup root = .ok ⟨place, .directory entries, left⟩)
    (hflat : ∀ entry ∈ entries, ∀ inner, entry.2 ≠ .directory inner)
    (hsorted : entries.Pairwise fun a b => a.1 ≤ b.1) {found : List (List String)}
    (hkept : keptFiles (.of .empty settings false) [] (plainFiles entries) = .ok found)
    (hordered : (found.map fun parts => PosixPath.below root (PosixPath.joinParts parts)).Pairwise
      fun a b => a ≤ b) :
    sourceFiles top settings root =
      .ok (found.map fun parts => PosixPath.below root (PosixPath.joinParts parts)) := by
  rw [sourceFiles_flat hlookup hflat hsorted, hkept]
  exact congrArg Except.ok (List.mergeSort_of_pairwise (by simpa using hordered))

end Discovery

end CrateAtlas
