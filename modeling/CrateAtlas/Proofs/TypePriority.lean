import CrateAtlas.Proofs.Integrity
import CrateAtlas.Proofs.ModulePrivacy
import CrateAtlas.Proofs.Refinement
import CrateAtlas.Proofs.RunErrors

/-!
# Types come before impl blocks

An impl block is named like its type, so a look-up by that name could lead to either.  In the
tables of names the impl blocks of a file come last: a name that another element of the file has
too leads to the other element.  The generic arguments of an impl block belong to its own name
though, and that name no other element needs to have.  A reference that spells them out, as
{lit}`Self` does among the members of the block, leads to the block.

Main results:

- Theorem {lit}`FileModel.exists_answers`: what a name leads to in a table, and what comes first.
- Theorem {lit}`Resolver.exists_of_resolve`: every resolved reference was looked up under one of
  its spellings.
- Theorem {lit}`extractProject_typesFirst`: a reference leads to an impl block only if no other
  element of the file shares its name, or if it spells the generic arguments of the block.
- Theorem {lit}`extractProject_self_strays`: {lit}`Self` in a generic impl block leads to the block
  and not to its type.
-/

namespace CrateAtlas

open ScopePath

/-! ## Spellings -/

/-- A name as it is looked up: the way it is written, and without generic arguments. -/
def NameTable.spellings (name : String) : List String :=
  [name, withoutSegmentGenerics name]

theorem NameTable.exists_of_lookup {table : NameTable} {name id : String}
    (h : table.lookup name = some id) : ∃ key ∈ spellings name, table.get? key = some id := by
  rcases FileModel.lookup_cases h with h | h
  · exact ⟨name, by simp [spellings], h⟩
  · exact ⟨withoutSegmentGenerics name, by simp [spellings], h⟩

namespace FileModel

/-- A name qualified by the leading segments of a scope that is given in reverse. -/
def qualifications (name : String) : (reversed : List String) → List String
  | [] => []
  | segment :: rest =>
      join ((segment :: rest).reverse ++ [name]) :: qualifications name rest

/-- The names under which a reference is looked up in its file. -/
def localNames (model : FileModel) (reference : Reference) : List String :=
  if reference.type = .importReference then []
  else
    match split reference.text with
    | [] => []
    | head :: rest =>
        let around := (split (model.scopeOf reference)).reverse
        if head = "Self" then qualifications (join rest) around
        else
          match model.imported? head with
          | some _ => []
          | none => reference.text :: qualifications reference.text around

/-- The paths under which a reference is looked up in the crate. -/
def cratePaths (model : FileModel) (reference : Reference) : List String :=
  if reference.type = .importReference then candidates reference.text model.modulePath
  else
    match split reference.text with
    | [] => []
    | head :: rest =>
        if head = "Self" then []
        else
          match model.imported? head with
          | some path => candidates (join (path :: rest)) model.modulePath
          | none =>
              candidates reference.text (model.homeOf reference) ++
                if head = crateRoot ∨ isRelativeHead head then []
                else model.globs.flatMap fun glob =>
                  candidates (join [glob, reference.text]) model.modulePath

variable {model : FileModel} {reference : Reference} {id : String}

theorem exists_qualification {table : NameTable} {name : String} {reversed : List String}
    (h : lookupScoped table name reversed = some id) :
    ∃ qualified ∈ qualifications name reversed, table.lookup qualified = some id := by
  induction reversed with
  | nil => simp [lookupScoped] at h
  | cons segment rest ih =>
      rw [lookupScoped] at h
      split at h
      · rename_i found hfound
        exact ⟨_, List.mem_cons_self, hfound.trans h⟩
      · obtain ⟨qualified, hmem, hlookup⟩ := ih h
        exact ⟨qualified, List.mem_cons_of_mem _ hmem, hlookup⟩

/-- What a file finds by itself, it finds under a local name of the reference. -/
theorem exists_localName (h : model.localTarget? reference = some id) :
    ∃ name ∈ model.localNames reference, model.names.lookup name = some id := by
  unfold localTarget? at h
  unfold localNames
  split at h
  · contradiction
  · rename_i himport
    rw [if_neg himport]
    cases hsplit : split reference.text with
    | nil =>
        rw [hsplit] at h
        cases h
    | cons head rest =>
        rw [hsplit] at h
        simp only at h ⊢
        split at h
        · rename_i hself
          rw [if_pos hself]
          exact exists_qualification h
        · rename_i hself
          rw [if_neg hself]
          cases himported : model.imported? head with
          | some path =>
              rw [himported] at h
              cases h
          | none =>
              rw [himported] at h
              rcases Resolver.first_eq_some h with h | h
              · exact ⟨_, List.mem_cons_self, h⟩
              · obtain ⟨qualified, hmem, hlookup⟩ := exists_qualification h
                exact ⟨qualified, List.mem_cons_of_mem _ hmem, hlookup⟩

end FileModel

namespace Resolver

variable {resolver : Resolver} {model : FileModel} {reference : Reference} {id : String}

/-- What is found in the crate is found under a path of the reference. -/
theorem exists_cratePath (h : resolver.crateTarget? model reference = some id) :
    ∃ path ∈ model.cratePaths reference, resolver.canonical.lookup path = some id := by
  unfold crateTarget? at h
  unfold FileModel.cratePaths
  split at h
  · rename_i himport
    rw [if_pos himport]
    exact List.exists_of_findSome?_eq_some h
  · rename_i himport
    rw [if_neg himport]
    cases hsplit : split reference.text with
    | nil =>
        rw [hsplit] at h
        cases h
    | cons head rest =>
        rw [hsplit] at h
        simp only at h ⊢
        split at h
        · contradiction
        · rename_i hself
          rw [if_neg hself]
          cases himported : model.imported? head with
          | some path =>
              rw [himported] at h
              exact List.exists_of_findSome?_eq_some h
          | none =>
              rw [himported] at h
              rcases first_eq_some h with h | h
              · obtain ⟨path, hpath, hlookup⟩ := List.exists_of_findSome?_eq_some h
                exact ⟨path, List.mem_append_left _ hpath, hlookup⟩
              · split at h
                · contradiction
                · rename_i hbare
                  obtain ⟨glob, hglob, h⟩ := List.exists_of_findSome?_eq_some h
                  obtain ⟨path, hpath, hlookup⟩ := List.exists_of_findSome?_eq_some h
                  rw [if_neg hbare]
                  exact ⟨path, List.mem_append_right _
                    (List.mem_flatMap.mpr ⟨glob, hglob, hpath⟩), hlookup⟩

/-- A resolved reference was looked up under one of its names, in its file or in the crate. -/
theorem exists_of_resolve (h : resolver.resolve model reference = some id) :
    (∃ name ∈ model.localNames reference, model.names.lookup name = some id) ∨
      ∃ path ∈ model.cratePaths reference, resolver.canonical.lookup path = some id := by
  rw [resolve_eq] at h
  rcases first_eq_some h with h | h
  · exact .inl (FileModel.exists_localName h)
  · exact .inr (exists_cratePath h)

end Resolver

/-! ## What comes first in a table -/

namespace FileModel

/-- An element of a file answers to a path: one of its names makes the path, below the module that
the names of the file are taken from, and if the element is an impl block, then no name of an
element that is none makes it. -/
structure Answers (model : FileModel) (home key : String) (t : Element) : Prop where
  mem : t ∈ model.elements
  named : ∃ name ∈ lookupNames t, key = join [home, name]
  first : t.kind = .impl → ∀ e ∈ model.elements, e.kind ≠ .impl →
    ∀ name ∈ lookupNames e, key ≠ join [home, name]

variable {model : FileModel} {home key id : String} {t e : Element}

/-- The entries of some elements below a module lead from their names to them. -/
theorem exists_of_mem_entries {elements : List Element} {entry : String × String}
    (h : entry ∈ CrateAtlas.entries (elements.map fun e => (home, e))) :
    ∃ t ∈ elements, t.id = entry.2 ∧ ∃ name ∈ lookupNames t, entry.1 = join [home, name] := by
  obtain ⟨named, hnamed, hentry⟩ := List.mem_flatMap.mp h
  obtain ⟨t, ht, rfl⟩ := List.mem_map.mp hnamed
  obtain ⟨name, hname, rfl⟩ := List.mem_map.mp hentry
  exact ⟨t, ht, rfl, name, hname, rfl⟩

/-- What a path leads to in the table of a file answers to it. -/
theorem exists_answers
    (h : (CrateAtlas.entries ((lookupOrder model.elements).map fun e => (home, e))).get? key =
      some id) :
    ∃ t, t.id = id ∧ model.Answers home key t := by
  obtain ⟨entry, hentry, rfl⟩ := Option.map_eq_some_iff.mp h
  have hkey : entry.1 = key := by simpa using List.find?_some hentry
  rw [lookupOrder, List.map_append, CrateAtlas.entries, List.flatMap_append, List.find?_append,
    Option.or_eq_some_iff] at hentry
  rcases hentry with hfront | ⟨hnone, hback⟩
  · obtain ⟨t, ht, hid, name, hname, hmakes⟩ :=
      exists_of_mem_entries (List.mem_of_find?_eq_some hfront)
    obtain ⟨hmem, hkind⟩ := List.mem_filter.mp ht
    refine ⟨t, hid, hmem, ⟨name, hname, hkey ▸ hmakes⟩, fun himpl => ?_⟩
    simp [himpl] at hkind
  · obtain ⟨t, ht, hid, name, hname, hmakes⟩ :=
      exists_of_mem_entries (List.mem_of_find?_eq_some hback)
    refine ⟨t, hid, (List.mem_filter.mp ht).1, ⟨name, hname, hkey ▸ hmakes⟩, ?_⟩
    -- Nothing in front has this path, where the names of all other elements are.
    rintro - e he hne name hname rfl
    have hfront : (join [home, name], e.id) ∈ CrateAtlas.entries
        ((model.elements.filter fun element => element.kind ≠ .impl).map fun e => (home, e)) :=
      List.mem_flatMap.mpr ⟨(home, e), List.mem_map_of_mem (List.mem_filter.mpr
        ⟨he, by simpa using hne⟩), List.mem_map.mpr ⟨name, hname, rfl⟩⟩
    simpa using List.find?_eq_none.mp hnone _ hfront

/-- An impl block that shares its name with another element, up to generic arguments, answers to
nothing but its own name. -/
theorem Answers.eq_qualifiedName (h : model.Answers home key t) (himpl : t.kind = .impl)
    (he : e ∈ model.elements) (hne : e.kind ≠ .impl)
    (hsame : withoutSegmentGenerics e.qualifiedName = withoutSegmentGenerics t.qualifiedName) :
    withoutSegmentGenerics t.qualifiedName ≠ t.qualifiedName ∧
      key = join [home, t.qualifiedName] := by
  have hshared : key ≠ join [home, withoutSegmentGenerics t.qualifiedName] :=
    hsame ▸ h.first himpl e he hne _ (mem_lookupNames.mpr (.inr rfl))
  obtain ⟨name, hname, hkey⟩ := h.named
  rcases mem_lookupNames.mp hname with rfl | rfl
  · exact ⟨fun hplain => hshared (by rw [hplain, hkey]), hkey⟩
  · exact absurd hkey hshared

theorem exists_answers_of_names (h : model.names.get? key = some id) :
    ∃ t, t.id = id ∧ model.Answers "" key t := by
  rw [names_eq] at h
  exact exists_answers h

theorem exists_answers_of_canonical {files : List FileModel}
    (h : (Resolver.ofFiles files).canonical.get? key = some id) :
    ∃ file ∈ files, ∃ t, t.id = id ∧ file.Answers file.modulePath key t := by
  rw [Resolver.canonical_eq, CrateAtlas.entries, List.flatMap_assoc, NameTable.get?,
    List.find?_flatMap, Option.map_eq_some_iff] at h
  obtain ⟨entry, hentry, rfl⟩ := h
  obtain ⟨file, hfile, hfound⟩ := List.exists_of_findSome?_eq_some hentry
  exact ⟨file, hfile, exists_answers (Option.map_eq_some_iff.mpr ⟨entry, hfound, rfl⟩)⟩

end FileModel

/-! ## Projects -/

/-- A reference spells the generic arguments of an element: the element has some in its name, and
the reference is looked up under that very name, in its own file or as a path of the crate. -/
def SpellsGenerics (user : FileModel) (reference : Reference) (file : FileModel) (t : Element) :
    Prop :=
  withoutSegmentGenerics t.qualifiedName ≠ t.qualifiedName ∧
    ((file = user ∧ ∃ name ∈ user.localNames reference,
        t.qualifiedName ∈ NameTable.spellings name) ∨
      ∃ path ∈ user.cratePaths reference,
        join [file.modulePath, t.qualifiedName] ∈ NameTable.spellings path)

instance (user : FileModel) (reference : Reference) (file : FileModel) (t : Element) :
    Decidable (SpellsGenerics user reference file t) :=
  inferInstanceAs (Decidable (_ ∧ _))

/-- Every resolved reference of some files leads to an element of a file.  If it is an impl block
whose generic arguments the reference does not spell, no other element of that file shares its
name. -/
theorem Resolver.resolve_typesFirst {files : List FileModel} {user : FileModel}
    (huser : user ∈ files) {reference : Reference} {id : String}
    (h : (ofFiles files).resolve user reference = some id) :
    ∃ file ∈ files, ∃ t ∈ file.elements, t.id = id ∧
      (t.kind = .impl → ¬SpellsGenerics user reference file t →
        ∀ e ∈ file.elements, e.kind ≠ .impl →
          withoutSegmentGenerics e.qualifiedName ≠ withoutSegmentGenerics t.qualifiedName) := by
  rcases exists_of_resolve h with ⟨name, hname, hlookup⟩ | ⟨path, hpath, hlookup⟩
  · obtain ⟨key, hspelling, hget⟩ := NameTable.exists_of_lookup hlookup
    obtain ⟨t, hid, hanswers⟩ := FileModel.exists_answers_of_names hget
    refine ⟨user, huser, t, hanswers.mem, hid, ?_⟩
    intro himpl hspells e he hne hsame
    obtain ⟨hgeneric, hkey⟩ := hanswers.eq_qualifiedName himpl he hne hsame
    rw [join_nil_left] at hkey
    exact hspells ⟨hgeneric, .inl ⟨rfl, name, hname, hkey ▸ hspelling⟩⟩
  · obtain ⟨key, hspelling, hget⟩ := NameTable.exists_of_lookup hlookup
    obtain ⟨file, hfile, t, hid, hanswers⟩ := FileModel.exists_answers_of_canonical hget
    refine ⟨file, hfile, t, hanswers.mem, hid, ?_⟩
    intro himpl hspells e he hne hsame
    obtain ⟨hgeneric, hkey⟩ := hanswers.eq_qualifiedName himpl he hne hsame
    exact hspells ⟨hgeneric, .inr ⟨path, hpath, hkey ▸ hspelling⟩⟩

/-- In a model that a run returns, every target is the identifier of an element of some file.  If
that is an impl block, no other element of the file shares its name up to generic arguments, unless
the reference spells the generic arguments of the block. -/
theorem extractProject_typesFirst {top : FileTree} {root : String} {settings : Settings}
    {signal : ProjectRun.Signal} {runId extractedAt : String} {model : ProjectModel}
    (h : extractProject top root settings signal runId extractedAt = .ok model)
    {user : FileModel} (huser : user ∈ model.files) {reference : Reference}
    (hreference : reference ∈ user.references) {id : String} (hid : reference.target = some id) :
    ∃ file ∈ model.files, ∃ t ∈ file.elements, t.id = id ∧
      (t.kind = .impl → ¬SpellsGenerics user reference file t →
        ∀ e ∈ file.elements, e.kind ≠ .impl →
          withoutSegmentGenerics e.qualifiedName ≠ withoutSegmentGenerics t.qualifiedName) := by
  obtain ⟨paths, results, project, dependencies, -, -, rfl⟩ := exists_of_extractProject h
  let files := ProjectModel.ordered (ProjectRun.models results)
  let resolver := Resolver.ofFiles files
  obtain ⟨old, hold, rfl⟩ := List.mem_map.mp huser
  obtain ⟨unresolved, -, rfl⟩ := List.mem_map.mp hreference
  have hresolve : resolver.resolve old unresolved = some id := hid
  obtain ⟨file, hfile, t, ht, rfl, hfirst⟩ := Resolver.resolve_typesFirst hold hresolve
  refine ⟨resolver.resolveFile file, List.mem_map_of_mem hfile, t, ht, rfl, ?_⟩
  intro himpl hspells
  refine hfirst himpl fun hspelled => hspells ?_
  -- Names and paths of a reference do not depend on the targets in its file.
  obtain ⟨hgeneric, ⟨rfl, hlocal⟩ | hcrate⟩ := hspelled
  · exact ⟨hgeneric, .inl ⟨rfl, hlocal⟩⟩
  · exact ⟨hgeneric, .inr hcrate⟩

/-! ## An impl block for a generic type -/

namespace Sample

/-- A project of one file with the given content. -/
def single (content : FileContent) : FileTree :=
  .directory [("p", .directory [("a.rs", .file content)])]

/-- The file of such a project is found. -/
theorem sourceFiles_single (content : FileContent) :
    Discovery.sourceFiles (single content) settings "/p" = .ok ["/p/a.rs"] := by
  have hlookup : (single content).lookup "/p" =
      .ok ⟨["p"], .directory [("a.rs", .file content)], 40⟩ := rfl
  have hkept : Discovery.keptFiles (.of .empty settings false) [] [("a.rs", .file false)] =
      .ok [["a.rs"]] := rfl
  exact Discovery.sourceFiles_flat_ok hlookup (by simp) (by simp) hkept (by simp)

/-- A run over a project of one file that is processed. -/
theorem extractProject_single {content : FileContent} {file : FileModel}
    (h : processFile (single content) "/p/a.rs" "/p" settings.maxFileSize settings.readOptions =
      .ok file) :
    extractProject (single content) "/p" settings ProjectRun.never "run" "now" =
      .ok (.aggregate (Manifest.projectInfo "/p" none) [file] [] ⟨[], [], []⟩ "run" "now") := by
  have habsolute : PosixPath.absolute "/p" = "/p" := by decide
  have hdirectory : (single content).isDirectoryAt "/p" = true := rfl
  have hmanifest : Manifest.load (single content) "/p" = .ok none := rfl
  rw [ProjectRun.extractProject_eq_join habsolute hdirectory (sourceFiles_single content) (by simp)
    hmanifest]
  simp only [List.map_cons, List.map_nil, h]
  rfl

/-- The model of such a project holds its file, with the references resolved. -/
theorem exists_extractProject_single (content : FileContent) {P : FileModel → Prop}
    [DecidablePred P]
    (h : (processFile (single content) "/p/a.rs" "/p" settings.maxFileSize
      settings.readOptions).map
        (fun file => decide (P ((Resolver.ofFiles [file]).resolveFile file))) = .ok true) :
    ∃ model file, extractProject (single content) "/p" settings ProjectRun.never "run" "now" =
        .ok model ∧ model.files = [file] ∧ P file := by
  obtain ⟨file, hfile, hP⟩ := Outcome.map_eq_ok_iff.mp h
  refine ⟨_, (Resolver.ofFiles [file]).resolveFile file, extractProject_single hfile, ?_,
    of_decide_eq_true hP⟩
  show (ProjectModel.ordered [file]).map
    (Resolver.ofFiles (ProjectModel.ordered [file])).resolveFile = _
  rw [ProjectModel.ordered, List.mergeSort_singleton, List.map_singleton]

/-- A generic type with an impl block, and an impl block for a type of another file; a member of
each block names {lit}`Self`. -/
def selfText : String :=
  "pub struct S<T>(T);\nimpl<T> S<T> \x7b pub fn e(t: T) \x7b Self(t); \x7d \x7d\n" ++
    "impl W \x7b pub fn n() \x7b Self(); \x7d \x7d\n"

/-- The tree of that text. -/
def selfRoot : Node :=
  node "source_file" "" 0 99
    [node "struct_item" "" 0 19
      [node "visibility_modifier" "" 0 3 [], node "type_identifier" "name" 11 12 [],
        node "type_parameters" "type_parameters" 12 15
          [node "type_parameter" "" 13 14 [node "type_identifier" "name" 13 14 []]],
        node "ordered_field_declaration_list" "body" 15 18
          [node "type_identifier" "type" 16 17 []]],
    node "impl_item" "" 20 64
      [node "type_parameters" "type_parameters" 24 27
          [node "type_parameter" "" 25 26 [node "type_identifier" "name" 25 26 []]],
        node "generic_type" "type" 28 32
          [node "type_identifier" "type" 28 29 [],
            node "type_arguments" "type_arguments" 29 32 [node "type_identifier" "" 30 31 []]],
        node "declaration_list" "body" 33 64
          [node "function_item" "" 35 62
            [node "visibility_modifier" "" 35 38 [], node "identifier" "name" 42 43 [],
              node "parameters" "parameters" 43 49
                [node "parameter" "" 44 48
                  [node "identifier" "pattern" 44 45 [], node "type_identifier" "type" 47 48 []]],
              node "block" "body" 50 62
                [node "expression_statement" "" 52 60
                  [node "call_expression" "" 52 59
                    [node "identifier" "function" 52 56 [],
                      node "arguments" "arguments" 56 59 [node "identifier" "" 57 58 []]]]]]]],
    node "impl_item" "" 65 98
      [node "type_identifier" "type" 70 71 [],
        node "declaration_list" "body" 72 98
          [node "function_item" "" 74 96
            [node "visibility_modifier" "" 74 77 [], node "identifier" "name" 81 82 [],
              node "parameters" "parameters" 82 84 [],
              node "block" "body" 85 96
                [node "expression_statement" "" 87 94
                  [node "call_expression" "" 87 93
                    [node "identifier" "function" 87 91 [],
                      node "arguments" "arguments" 91 93 []]]]]]]]

/-- That text as the content of a file. -/
def selfContent : FileContent :=
  ⟨selfText.toUTF8.toList, selfRoot, none, false⟩

end Sample

/-- In the generic block {lit}`Self` leads to the block, which owns the name with generic
arguments, although the type has the same name without them. -/
theorem extractProject_self_strays :
    ∃ model file, extractProject (Sample.single Sample.selfContent) "/p" Sample.settings
        ProjectRun.never "run" "now" = .ok model ∧ model.files = [file] ∧
      ∃ reference ∈ file.references, reference.text = "Self" ∧
        ∃ t ∈ file.elements, reference.target = some t.id ∧ t.kind = .impl ∧
          ∃ e ∈ file.elements, e.kind = .struct ∧
            withoutSegmentGenerics e.qualifiedName = withoutSegmentGenerics t.qualifiedName :=
  Sample.exists_extractProject_single _ (by decide +kernel)

/-- In the other block {lit}`Self` leads to the block too, whose name no other element of the file
has. -/
theorem extractProject_typesFirst_sample :
    ∃ model file, extractProject (Sample.single Sample.selfContent) "/p" Sample.settings
        ProjectRun.never "run" "now" = .ok model ∧ model.files = [file] ∧
      ∃ reference ∈ file.references, reference.text = "Self" ∧
        ∃ t ∈ file.elements, reference.target = some t.id ∧ t.kind = .impl ∧
          ¬SpellsGenerics file reference file t ∧
          ∀ e ∈ file.elements, e.kind ≠ .impl →
            withoutSegmentGenerics e.qualifiedName ≠ withoutSegmentGenerics t.qualifiedName := by
  obtain ⟨model, file, hrun, hfiles, hnodup, reference, hreference, htext, t, ht, htarget, himpl,
    hplain⟩ := Sample.exists_extractProject_single Sample.selfContent
      (P := fun file => (file.elements.map Element.id).Nodup ∧
        ∃ reference ∈ file.references, reference.text = "Self" ∧
          ∃ t ∈ file.elements, reference.target = some t.id ∧ t.kind = .impl ∧
            withoutSegmentGenerics t.qualifiedName = t.qualifiedName)
      (by decide +kernel)
  have hspells : ¬SpellsGenerics file reference file t := fun hspelled => hspelled.1 hplain
  have hfile : file ∈ model.files := hfiles ▸ List.mem_singleton_self file
  obtain ⟨other, hother, t', ht', hsame, hfirst⟩ :=
    extractProject_typesFirst hrun hfile hreference htarget
  rw [hfiles, List.mem_singleton] at hother
  subst hother
  have heq : t' = t := List.inj_on_of_nodup_map hnodup ht' ht hsame
  subst heq
  exact ⟨model, _, hrun, hfiles, reference, hreference, htext, t', ht, htarget, himpl, hspells,
    hfirst himpl hspells⟩

end CrateAtlas
