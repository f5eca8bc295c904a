import CrateAtlas.Proofs.Resolution
import CrateAtlas.Proofs.Walk

/-!
# Looking up paths

A path is followed by looking at what stands at each place on the way: a file, a link, a directory
or nothing.  What is below a place does not matter.  So a path that leads somewhere in a file tree
leads to the same place in every tree that keeps what stands in the first one.

Main results:

- Theorem {lit}`follow_append`: a path is followed piece by piece.
- Theorem {lit}`Keeps.follow`: a path that leads somewhere leads there in every tree that keeps
  what stands in the first one.
- Theorem {lit}`fileAt_below`: what is read below a directory, where no link is on the way.
- Theorem {lit}`mem_sourceFiles_iff`: which source files are found, from what stands in the tree.
-/

namespace CrateAtlas

namespace FileTree

/-! ## What stands at a place -/

/-- An entry without what is below it. -/
inductive Stands where
  | file (content : FileContent)
  | link (target : String)
  | directory

/-- What an entry is. -/
def stands : FileTree → Stands
  | file content => .file content
  | link target => .link target
  | directory _ => .directory

/-- What stands at a path, without following links. -/
def standsAt? (top : FileTree) (path : List String) : Option Stands :=
  (top.entryAt? path).map stands

variable {top top' tree : FileTree}

theorem entryAt?_append (front back : List String) :
    ∀ tree : FileTree, tree.entryAt? (front ++ back) =
      (tree.entryAt? front).bind fun entry => entry.entryAt? back := by
  induction front with
  | nil => exact fun _ => rfl
  | cons name rest ih =>
      intro tree
      cases tree with
      | file content => rfl
      | link target => rfl
      | directory entries =>
          rw [List.cons_append, entryAt?, entryAt?]
          split
          · exact ih _
          · rfl

/-- What stands below a directory. -/
theorem standsAt?_append {front : List String} (h : top.entryAt? front = some tree)
    (back : List String) : top.standsAt? (front ++ back) = tree.standsAt? back := by
  rw [standsAt?, entryAt?_append, h]
  rfl

theorem entryAt?_of_standsAt?_file {path : List String} {content : FileContent}
    (h : top.standsAt? path = some (.file content)) :
    top.entryAt? path = some (.file content) := by
  obtain ⟨entry, hentry, hstands⟩ := Option.map_eq_some_iff.mp h
  cases entry with
  | file content => cases hstands; exact hentry
  | link target => cases hstands
  | directory entries => cases hstands

/-- What stands below an entry of a directory. -/
theorem standsAt?_cons (entries : List (String × FileTree)) (name : String) (rest : List String) :
    (directory entries).standsAt? (name :: rest) =
      (entries.find? fun entry => entry.1 == name).bind fun entry => entry.2.standsAt? rest := by
  rw [standsAt?, entryAt?]
  cases entries.find? fun entry => entry.1 == name <;> rfl

/-- Only directories stand on the way to an entry. -/
theorem standsAt?_of_append {front back : List String} {found : Stands}
    (h : top.standsAt? (front ++ back) = some found) (hback : back ≠ []) :
    top.standsAt? front = some .directory := by
  obtain ⟨entry, hentry, -⟩ := Option.map_eq_some_iff.mp h
  rw [entryAt?_append, Option.bind_eq_some_iff] at hentry
  obtain ⟨middle, hmiddle, hbelow⟩ := hentry
  cases back with
  | nil => exact absurd rfl hback
  | cons name rest =>
      cases middle with
      | directory entries =>
          rw [standsAt?, hmiddle]
          rfl
      | file content => cases hbelow
      | link target => cases hbelow

/-! ## Following paths -/

section Follow

variable {linksLeft : Nat} {onLink : List String → List String → Except PathError Place}
  {here : List String}

theorem followWith_nil : followWith top linksLeft onLink here [] =
    match top.entryAt? here.reverse with
    | some tree => .ok ⟨here.reverse, tree, linksLeft⟩
    | none => .error .notFound :=
  rfl

/-- One step on a path, from what stands there and at the next place. -/
theorem followWith_cons {part : String} {rest : List String} :
    followWith top linksLeft onLink here (part :: rest) =
      match top.standsAt? here.reverse with
      | some .directory =>
          if part = "" ∨ part = "." then followWith top linksLeft onLink here rest
          else if part = ".." then followWith top linksLeft onLink here.tail rest
          else if isLongName part then .error .nameTooLong
          else
            match top.standsAt? (here.reverse ++ [part]) with
            | none => .error .notFound
            | some (.link target) =>
                onLink (if Text.startsWith "/" target then [] else here)
                  (PosixPath.pieces target ++ rest)
            | some _ => followWith top linksLeft onLink (part :: here) rest
      | some _ => .error .notDirectory
      | none => .error .notFound := by
  rw [followWith]
  cases hhere : top.entryAt? here.reverse with
  | none => simp [standsAt?, hhere]
  | some tree =>
      cases tree with
      | file content => simp [standsAt?, hhere, stands]
      | link target => simp [standsAt?, hhere, stands]
      | directory entries =>
          rw [standsAt?_append hhere, standsAt?_cons, standsAt?, hhere]
          simp only [Option.map_some, stands]
          cases entries.find? fun entry => entry.1 == part with
          | none => rfl
          | some entry =>
              obtain ⟨name, tree⟩ := entry
              cases tree <;> rfl

/-- A path is followed piece by piece, provided that links are. -/
theorem followWith_append {back : List String}
    (hself : ∀ here, followWith top linksLeft onLink here back = top.follow linksLeft here back)
    (hlink : ∀ here rest, onLink here (rest ++ back) =
      onLink here rest >>= fun place => top.follow place.linksLeft place.path.reverse back)
    (front : List String) :
    ∀ here, followWith top linksLeft onLink here (front ++ back) =
      followWith top linksLeft onLink here front >>= fun place =>
        top.follow place.linksLeft place.path.reverse back := by
  induction front with
  | nil =>
      intro here
      rw [List.nil_append, followWith_nil]
      cases hhere : top.entryAt? here.reverse with
      | some tree =>
          show _ = top.follow linksLeft here.reverse.reverse back
          rw [List.reverse_reverse, hself]
      | none =>
          show _ = Except.error PathError.notFound
          cases back with
          | nil => rw [followWith_nil, hhere]
          | cons part rest => rw [followWith_cons, standsAt?, hhere]; rfl
  | cons part rest ih =>
      intro here
      rw [List.cons_append, followWith_cons, followWith_cons, ih here, ih here.tail,
        ih (part :: here)]
      cases top.standsAt? here.reverse with
      | none => rfl
      | some found =>
          cases found with
          | file content => rfl
          | link target => rfl
          | directory =>
              simp only
              split
              · rfl
              · split
                · rfl
                · split
                  · rfl
                  · cases top.standsAt? (here.reverse ++ [part]) with
                    | none => rfl
                    | some next =>
                        cases next with
                        | file content => rfl
                        | directory => rfl
                        | link target =>
                            simp only
                            rw [← List.append_assoc]
                            exact hlink _ _

/-- A path is followed piece by piece. -/
theorem follow_append (back : List String) : ∀ links here front,
    top.follow links here (front ++ back) =
      top.follow links here front >>= fun place =>
        top.follow place.linksLeft place.path.reverse back := by
  intro links
  induction links with
  | zero =>
      intro here front
      exact followWith_append (fun _ => rfl) (fun _ _ => rfl) front here
  | succ links ih =>
      intro here front
      exact followWith_append (fun _ => rfl) (fun here rest => ih here rest) front here

/-- No component of a path is refused for a null byte. -/
theorem followWith_ne_nullByte (hlink : ∀ here rest, onLink here rest ≠ .error .nullByte)
    (parts : List String) :
    ∀ here, followWith top linksLeft onLink here parts ≠ .error .nullByte := by
  induction parts with
  | nil =>
      intro here
      rw [followWith_nil]
      split <;> simp
  | cons part rest ih =>
      intro here
      rw [followWith_cons]
      split
      · split
        · exact ih here
        · split
          · exact ih here.tail
          · split
            · simp
            · split
              · simp
              · exact hlink _ _
              · exact ih (part :: here)
      · simp
      · simp

/-- Only a null byte in a path makes it no path. -/
theorem lookup_ne_nullByte (top : FileTree) {path : String} (h : '\x00' ∉ path.toList) :
    top.lookup path ≠ .error .nullByte := by
  have hfollow : ∀ links here parts, top.follow links here parts ≠ .error .nullByte := by
    intro links
    induction links with
    | zero =>
        intro here parts
        exact followWith_ne_nullByte (by simp) parts here
    | succ links ih =>
        intro here parts
        exact followWith_ne_nullByte ih parts here
  intro hlookup
  rcases Outcome.bind_eq_error_iff.mp hlookup with hchecked | ⟨checked, -, hfollowed⟩
  · unfold checkPath at hchecked
    rw [if_neg (by simpa using h)] at hchecked
    split at hchecked <;> simp at hchecked
  · exact hfollow _ _ _ hfollowed

end Follow

/-! ## Trees that keep what stands in another one -/

/-- Whatever stands in a file tree stands in another one too. -/
def Keeps (top top' : FileTree) : Prop :=
  ∀ path found, top.standsAt? path = some found → top'.standsAt? path = some found

theorem Keeps.exists_entry (h : Keeps top top') {path : List String}
    (htree : top.entryAt? path = some tree) :
    ∃ tree', top'.entryAt? path = some tree' ∧ tree'.stands = tree.stands := by
  have hstands : top.standsAt? path = some tree.stands := by
    rw [standsAt?, htree]
    rfl
  exact Option.map_eq_some_iff.mp (h path _ hstands)

theorem Keeps.followWith (h : Keeps top top') {linksLeft : Nat}
    {onLink onLink' : List String → List String → Except PathError Place}
    (hlink : ∀ here rest place, onLink here rest = .ok place →
      ∃ tree, onLink' here rest = .ok ⟨place.path, tree, place.linksLeft⟩) {parts : List String} :
    ∀ {here : List String} {place : Place}, top.followWith linksLeft onLink here parts = .ok place →
      ∃ tree, top'.followWith linksLeft onLink' here parts =
        .ok ⟨place.path, tree, place.linksLeft⟩ := by
  induction parts with
  | nil =>
      intro here place hplace
      rw [followWith_nil] at hplace
      split at hplace
      · rename_i tree htree
        cases hplace
        obtain ⟨tree', htree', -⟩ := h.exists_entry htree
        exact ⟨tree', by rw [followWith_nil, htree']⟩
      · cases hplace
  | cons part rest ih =>
      intro here place hplace
      rw [followWith_cons] at hplace ⊢
      split at hplace
      · rename_i hhere
        rw [h _ _ hhere]
        simp only
        split at hplace
        · rename_i hstay
          rw [if_pos hstay]
          exact ih hplace
        · rename_i hgo
          rw [if_neg hgo]
          split at hplace
          · rename_i hup
            rw [if_pos hup]
            exact ih hplace
          · rename_i hdown
            rw [if_neg hdown]
            split at hplace
            · cases hplace
            · rename_i hshort
              rw [if_neg hshort]
              split at hplace
              · cases hplace
              · rename_i target hnext
                rw [h _ _ hnext]
                exact hlink _ _ _ hplace
              · rename_i found hnotLink hnext
                rw [h _ _ hnext]
                cases found with
                | link target => exact absurd rfl (hnotLink target)
                | file content => exact ih hplace
                | directory => exact ih hplace
      · cases hplace
      · cases hplace

/-- A path that leads somewhere leads to the same place in a tree that keeps what stands here. -/
theorem Keeps.follow (h : Keeps top top') : ∀ {links : Nat} {here parts : List String}
    {place : Place}, top.follow links here parts = .ok place →
      ∃ tree, top'.follow links here parts = .ok ⟨place.path, tree, place.linksLeft⟩ := by
  intro links
  induction links with
  | zero => exact fun hplace => h.followWith (by simp) hplace
  | succ links ih => exact fun hplace => h.followWith (fun _ _ _ hplace => ih hplace) hplace

theorem Keeps.lookup (h : Keeps top top') {path : String} {place : Place}
    (hplace : top.lookup path = .ok place) :
    ∃ tree, top'.lookup path = .ok ⟨place.path, tree, place.linksLeft⟩ ∧
      tree.stands = place.tree.stands := by
  obtain ⟨checked, hchecked, hfollow⟩ := Outcome.bind_eq_ok_iff.mp hplace
  obtain ⟨tree, htree⟩ := h.follow hfollow
  obtain ⟨tree', htree', hstands⟩ := h.exists_entry (entryAt?_of_follow hfollow)
  have hsame : tree = tree' := Option.some.inj ((entryAt?_of_follow htree).symm.trans htree')
  exact ⟨tree, Outcome.bind_eq_ok_iff.mpr ⟨checked, hchecked, htree⟩, hsame ▸ hstands⟩

/-- A file that can be read stays as it is. -/
theorem Keeps.fileAt (h : Keeps top top') {path : String} {content : FileContent}
    (hcontent : top.fileAt path = .ok content) : top'.fileAt path = .ok content := by
  unfold FileTree.fileAt contentOf at hcontent
  split at hcontent
  · rename_i place content' left hlookup
    cases hcontent
    obtain ⟨tree, htree, hstands⟩ := h.lookup hlookup
    cases tree with
    | file content =>
        cases hstands
        rw [FileTree.fileAt, htree]
        rfl
    | link target => cases hstands
    | directory entries => cases hstands
  · cases hcontent
  · cases hcontent

theorem Keeps.isDirectoryAt (h : Keeps top top') {path : String}
    (hpath : top.isDirectoryAt path = true) : top'.isDirectoryAt path = true := by
  unfold FileTree.isDirectoryAt at hpath
  split at hpath
  · rename_i hlookup
    obtain ⟨tree, htree, hstands⟩ := h.lookup hlookup
    cases tree with
    | directory entries => rw [FileTree.isDirectoryAt, htree]
    | file content => cases hstands
    | link target => cases hstands
  · contradiction

/-! ## Entries below a directory -/

/-- Names lead straight to a file, unless one of them is too long. -/
theorem followWith_names {linksLeft : Nat}
    {onLink : List String → List String → Except PathError Place} {content : FileContent}
    {names : List String} (hnames : ∀ name ∈ names, PosixPath.IsName name) :
    ∀ {here : List String}, top.standsAt? (here.reverse ++ names) = some (.file content) →
      top.followWith linksLeft onLink here names =
        if names.any isLongName then .error .nameTooLong
        else .ok ⟨here.reverse ++ names, .file content, linksLeft⟩ := by
  induction names with
  | nil =>
      intro here hstands
      rw [List.append_nil] at hstands ⊢
      rw [followWith_nil, entryAt?_of_standsAt?_file hstands]
      rfl
  | cons name rest ih =>
      intro here hstands
      have hname := hnames name (by simp)
      have hhere := standsAt?_of_append hstands (by simp)
      have hsplit : here.reverse ++ name :: rest = (name :: here).reverse ++ rest := by simp
      have hlater := hsplit ▸ hstands
      have hrest := ih (fun name hname => hnames name (by simp [hname])) hlater
      rw [followWith_cons, hhere]
      simp only
      rw [if_neg (by simp [hname.ne_empty, hname.ne_dot]), if_neg hname.ne_dotdot, List.any_cons]
      cases hlong : isLongName name with
      | true => rfl
      | false =>
          rw [Bool.false_or, if_neg (by simp), hsplit, ← hrest]
          have hnext : top.standsAt? (here.reverse ++ [name]) = some .directory ∨
              top.standsAt? (here.reverse ++ [name]) = some (.file content) := by
            rw [List.reverse_cons] at hlater
            cases rest with
            | nil => exact .inr (by rwa [List.append_nil] at hlater)
            | cons next last => exact .inl (standsAt?_of_append hlater (by simp))
          rcases hnext with hnext | hnext <;> rw [hnext]

/-- An empty piece at the end of a path leads to where the rest of it leads. -/
theorem follow_of_empty_end {links : Nat} {here parts : List String} {place : Place}
    (h : top.follow links here (parts ++ [""]) = .ok place) :
    top.follow links here parts = .ok place := by
  rw [follow_append] at h
  obtain ⟨place', hplace', hend⟩ := Outcome.bind_eq_ok_iff.mp h
  have hstay : ∀ onLink, top.followWith place'.linksLeft onLink place'.path.reverse [""] =
      .ok place → place = place' := by
    intro onLink hstay
    rw [followWith_cons, if_pos (.inl rfl), followWith_nil, List.reverse_reverse,
      entryAt?_of_follow hplace'] at hstay
    split at hstay <;> cases hstay
    rfl
  have hsame : place = place' := by
    cases hlinks : place'.linksLeft with
    | zero => exact hstay _ (by rwa [hlinks] at hend ⊢)
    | succ links => exact hstay _ (by rwa [hlinks] at hend ⊢)
  rw [hsame, hplace']

/-- The way to a place, without an empty piece at its end. -/
theorem follow_of_lookup {root : String} {place : Place} {front : List String}
    (hroot : top.lookup root = .ok place)
    (hfront : PosixPath.pieces root = front ∨ PosixPath.pieces root = front ++ [""]) :
    top.follow maxLinks [] front = .ok place := by
  obtain ⟨-, -, hfollow⟩ := Outcome.bind_eq_ok_iff.mp hroot
  rcases hfront with hfront | hfront
  · rwa [← hfront]
  · exact follow_of_empty_end (hfront ▸ hfollow)

/-- What is read below a directory where no link is on the way. -/
theorem fileAt_below {root : String} {place : Place} {content : FileContent} {names : List String}
    (hroot : top.lookup root = .ok place) (hne : names ≠ [])
    (hnames : ∀ name ∈ names, PosixPath.IsName name)
    (hstands : top.standsAt? (place.path ++ names) = some (.file content)) :
    top.fileAt (PosixPath.below root (PosixPath.joinParts names)) =
      (checkPath (PosixPath.below root (PosixPath.joinParts names)) >>= fun _ =>
        if names.any isLongName then .error .nameTooLong else .ok content) := by
  have hbelow : top.follow place.linksLeft place.path.reverse names =
      if names.any isLongName then .error .nameTooLong
      else .ok ⟨place.path.reverse.reverse ++ names, .file content, place.linksLeft⟩ := by
    have hstands : top.standsAt? (place.path.reverse.reverse ++ names) = some (.file content) := by
      rwa [List.reverse_reverse]
    cases hlinks : place.linksLeft with
    | zero => exact followWith_names hnames hstands
    | succ links => exact followWith_names hnames hstands
  have hlookup : top.lookup (PosixPath.below root (PosixPath.joinParts names)) =
      (checkPath (PosixPath.below root (PosixPath.joinParts names)) >>= fun _ =>
        top.follow place.linksLeft place.path.reverse names) := by
    obtain ⟨front, hpieces, hfront⟩ := PosixPath.exists_pieces_below root hne hnames
    rw [FileTree.lookup, hpieces, follow_append, follow_of_lookup hroot hfront]
    rfl
  rw [FileTree.fileAt, hlookup, hbelow]
  cases checkPath (PosixPath.below root (PosixPath.joinParts names)) with
  | error error => rfl
  | ok checked => by_cases hlong : names.any isLongName = true <;> simp only [hlong] <;> rfl

/-- What stands below an entry of a directory with distinct names. -/
theorem standsAt?_cons_iff {entries : List (String × FileTree)}
    (hnodup : (entries.map Prod.fst).Nodup) {name : String} {rest : List String} {found : Stands} :
    (directory entries).standsAt? (name :: rest) = some found ↔
      ∃ sub, (name, sub) ∈ entries ∧ sub.standsAt? rest = some found := by
  rw [standsAt?_cons, Option.bind_eq_some_iff]
  constructor
  · rintro ⟨entry, hentry, h⟩
    have hname : entry.1 = name := by simpa using List.find?_some hentry
    exact ⟨entry.2, hname ▸ List.mem_of_find?_eq_some hentry, h⟩
  · rintro ⟨sub, hsub, h⟩
    exact ⟨(name, sub), find?_eq_some_of_nodup hnodup hsub, h⟩

/-- The entries of a well-formed tree have proper names on the way. -/
theorem WellFormed.isName_of_standsAt? {names : List String} :
    ∀ {tree : FileTree} {found : Stands}, tree.WellFormed → tree.standsAt? names = some found →
      ∀ name ∈ names, PosixPath.IsName name := by
  induction names with
  | nil => simp
  | cons first rest ih =>
      intro tree found htree hfound
      cases htree with
      | file content => cases hfound
      | link target => cases hfound
      | directory entries hnodup hnames hentries =>
          obtain ⟨sub, hsub, hbelow⟩ := (standsAt?_cons_iff hnodup).mp hfound
          exact List.forall_mem_cons.mpr ⟨hnames _ hsub, ih (hentries _ hsub) hbelow⟩

theorem exists_of_isDirectoryAt {path : String} (h : top.isDirectoryAt path = true) :
    ∃ place entries, top.lookup path = .ok place ∧ place.tree = directory entries := by
  unfold isDirectoryAt at h
  split at h
  · rename_i hlookup
    exact ⟨_, _, hlookup, rfl⟩
  · contradiction

end FileTree

/-! ## Source files -/

namespace Discovery

open FileTree

/-- Settings keep the way down to a file: every subdirectory on it is searched, and the file is
kept. -/
def Kept (settings : Settings) : (here : List String) → List String → Prop
  | _, [] => False
  | here, [name] => keepsFile (.of .empty settings false) here name false = .ok true
  | here, name :: next :: rest =>
      keepsDirectory (.of .empty settings false) here name false = .ok true ∧
        Kept settings (here ++ [name]) (next :: rest)

/-- The ways down to files that are found are those that settings keep. -/
theorem finds_iff {top : FileTree} {settings : Settings} {names : List String} :
    ∀ {here : List String} {entries : List (String × FileTree)},
      (directory entries).WellFormed →
      (Finds (.of top settings false) here entries names ↔
        Kept settings here names ∧
          ∃ content, (directory entries).standsAt? names = some (.file content)) := by
  induction names with
  | nil =>
      intro here entries _
      constructor
      · intro h
        cases h
      · rintro ⟨h, -⟩
        cases h
  | cons name rest ih =>
      intro here entries hentries
      cases hentries with
      | directory _ hnodup _ hwell =>
          constructor
          · intro h
            cases h with
            | file htree hkeeps =>
                exact ⟨hkeeps, _, (standsAt?_cons_iff hnodup).mpr ⟨_, htree, rfl⟩⟩
            | directory htree hkeeps hfinds =>
                obtain ⟨hkept, content, hstands⟩ := (ih (hwell _ htree)).mp hfinds
                cases rest with
                | nil => cases hkept
                | cons next last =>
                    exact ⟨⟨hkeeps, hkept⟩, content,
                      (standsAt?_cons_iff hnodup).mpr ⟨_, htree, hstands⟩⟩
          · rintro ⟨hkept, content, hstands⟩
            obtain ⟨sub, hsub, hstands⟩ := (standsAt?_cons_iff hnodup).mp hstands
            cases rest with
            | nil =>
                obtain rfl := Option.some.inj (entryAt?_of_standsAt?_file hstands)
                exact .file hsub hkept
            | cons next last =>
                cases sub with
                | file content => cases hstands
                | link target => cases hstands
                | directory inner =>
                    exact .directory hsub hkept.1 ((ih (hwell _ hsub)).mpr ⟨hkept.2, _, hstands⟩)

/-- The source files below a directory are the files that settings keep. -/
theorem mem_sourceFiles_iff {top : FileTree} (htop : top.WellFormed) {settings : Settings}
    {root : String} {place : Place} {entries : List (String × FileTree)} {paths : List String}
    (hroot : top.lookup root = .ok place) (hplace : place.tree = directory entries)
    (h : sourceFiles top settings root = .ok paths) {path : String} :
    path ∈ paths ↔ ∃ names, path = PosixPath.below root (PosixPath.joinParts names) ∧
      Kept settings [] names ∧
      ∃ content, top.standsAt? (place.path ++ names) = some (.file content) := by
  obtain ⟨here, tree, left⟩ := place
  subst hplace
  obtain ⟨outcome, hwalk, rfl⟩ := Outcome.map_eq_ok_iff.mp h
  have hdirectory : (directory entries).WellFormed := htop.of_lookup hroot
  have hentry : top.entryAt? here = some (directory entries) := by
    obtain ⟨-, -, hfollow⟩ := Outcome.bind_eq_ok_iff.mp hroot
    exact entryAt?_of_follow hfollow
  unfold walk at hwalk
  rw [show (Plan.of top settings false).top.lookup root = _ from hroot] at hwalk
  simp only at hwalk
  split at hwalk
  · rename_i found hfound
    cases hwalk
    rw [(List.mergeSort_perm _ _).mem_iff, List.mem_map]
    simp only [mem_walkDirectory_iff rfl hfound, List.nil_append, finds_iff hdirectory,
      standsAt?_append hentry]
    constructor
    · rintro ⟨names, ⟨_, rfl, hkept⟩, rfl⟩
      exact ⟨names, rfl, hkept⟩
    · rintro ⟨names, rfl, hkept⟩
      exact ⟨names, ⟨names, rfl, hkept⟩, rfl⟩
  · cases hwalk

end Discovery

end CrateAtlas
