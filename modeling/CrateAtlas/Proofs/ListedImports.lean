import CrateAtlas.Proofs.ImportAgreement
import CrateAtlas.Proofs.ModulePrivacy

/-!
# Names that imports bind

The imports of a file are read twice: to find what a name in the file stands for, and to list the
names of an element in its namespace.  The two readings agree on every name like an identifier that
a file binds to one path, except on {lit}`_`, which is listed although it stands for nothing.

Main results:

- Theorem {lit}`imported?_eq_some`: what a name stands for, in a file that binds it once.
- Theorem {lit}`resolve_of_imported?`: a bare name leads where its import does.
- Theorem {lit}`ofFiles_importsFound`: the names that namespaces list are found.
-/

namespace CrateAtlas

open ScopePath FileModel

/-! ## Names and paths -/

/-- A record binds a name to a path. -/
def ImportRecord.BindsTo (record : ImportRecord) (known path : String) : Prop :=
  ∃ name ∈ record.names, known = record.localName name ∧ path = join [record.modulePath, name]

namespace FileModel

variable {model : FileModel} {known path : String}

/-- No two imports of a file bind one name to different paths; {lit}`_` is not bound. -/
def BindsOnce (model : FileModel) : Prop :=
  ∀ record ∈ model.imports, ∀ other ∈ model.imports, ∀ known path path', known ≠ "_" →
    record.BindsTo known path → other.BindsTo known path' → path = path'

theorem mem_bindings_iff :
    (known, path) ∈ model.bindings ↔
      known ≠ "_" ∧ ∃ record ∈ model.imports, record.BindsTo known path := by
  unfold bindings ImportRecord.BindsTo
  constructor
  · intro h
    obtain ⟨record, hrecord, h⟩ := List.mem_flatMap.mp h
    obtain ⟨name, hname, h⟩ := List.mem_filterMap.mp h
    by_cases hblank : record.localName name = "_"
    · simp [hblank] at h
    · simp only [if_neg hblank, Option.some.injEq, Prod.mk.injEq] at h
      obtain ⟨rfl, rfl⟩ := h
      exact ⟨hblank, record, hrecord, name, hname, rfl, rfl⟩
  · rintro ⟨hblank, record, hrecord, name, hname, rfl, rfl⟩
    refine List.mem_flatMap.mpr ⟨record, hrecord, List.mem_filterMap.mpr ⟨name, hname, ?_⟩⟩
    simp only [if_neg hblank]

/-- A file binds each name once if no two of its bindings differ in the path alone. -/
theorem bindsOnce_iff : model.BindsOnce ↔
    ∀ b ∈ model.bindings, ∀ b' ∈ model.bindings, b.1 = b'.1 → b.2 = b'.2 := by
  constructor
  · rintro honce ⟨known, path⟩ hb ⟨other, path'⟩ hb' rfl
    obtain ⟨hblank, record, hrecord, hbinds⟩ := mem_bindings_iff.mp hb
    obtain ⟨-, record', hrecord', hbinds'⟩ := mem_bindings_iff.mp hb'
    exact honce record hrecord record' hrecord' known path path' hblank hbinds hbinds'
  · intro h record hrecord other hother known path path' hblank hbinds hbinds'
    exact h (known, path) (mem_bindings_iff.mpr ⟨hblank, record, hrecord, hbinds⟩)
      (known, path') (mem_bindings_iff.mpr ⟨hblank, other, hother, hbinds'⟩) rfl

instance (model : FileModel) : Decidable model.BindsOnce :=
  decidable_of_iff _ bindsOnce_iff.symm

/-- In a file that binds each name once, a name stands for the path of every import that binds
it. -/
theorem imported?_eq_some (honce : model.BindsOnce) {record : ImportRecord}
    (hrecord : record ∈ model.imports) (hbinds : record.BindsTo known path)
    (hblank : known ≠ "_") : model.imported? known = some path := by
  have hmem : (known, path) ∈ model.bindings.reverse :=
    List.mem_reverse.mpr (mem_bindings_iff.mpr ⟨hblank, record, hrecord, hbinds⟩)
  have hfound : (model.bindings.reverse.find? fun binding => binding.1 == known).isSome :=
    List.find?_isSome.mpr ⟨_, hmem, by simp⟩
  obtain ⟨⟨other, path'⟩, hother⟩ := Option.isSome_iff_exists.mp hfound
  obtain rfl : other = known := by simpa using List.find?_some hother
  have hpath := bindsOnce_iff.mp honce _
    (List.mem_reverse.mp (List.mem_of_find?_eq_some hother)) _ (List.mem_reverse.mp hmem) rfl
  rw [imported?, hother, Option.map_some]
  exact congrArg some hpath

end FileModel

/-! ## Bare names -/

namespace Resolver

variable {resolver : Resolver} {model file : FileModel} {known path id : String}

/-- A name in a file leads to an element, whoever uses it and for what. -/
def Finds (resolver : Resolver) (file : FileModel) (known id : String) : Prop :=
  ∀ reference : Reference, reference.type ≠ .importReference → reference.text = known →
    resolver.resolve file reference = some id

/-- A bare name that stands for an imported path leads where the path does. -/
theorem resolve_of_imported? (himported : model.imported? known = some path)
    (hword : Word known.toList) (hself : known ≠ "Self") {reference : Reference}
    (htype : reference.type ≠ .importReference) (htext : reference.text = known) :
    resolver.resolve model reference = resolver.lookupPath path model.modulePath := by
  have hname : ∀ scope home, resolver.resolveName model scope home reference.text =
      resolver.lookupPath path model.modulePath := by
    intro scope home
    rw [resolveName, htext, split_of_word hword]
    simp only [if_neg hself, himported, join_singleton]
  rw [resolve, if_neg htype]
  split
  · exact hname _ _
  · exact hname _ _

/-! ## Names that namespaces list -/

/-- The imports of a file that reach an element, by the names they bind. -/
theorem mem_importPathsOf_iff_bindsTo {found : ImportPath} :
    found ∈ resolver.importPathsOf model ↔
      ∃ record ∈ model.imports, ∃ known path, record.BindsTo known path ∧
        resolver.lookupPath path model.modulePath = some found.target ∧
        found.asName = record.asName.filter (fun asName => asName != "") ∧
        found.path = join [model.modulePath, known] := by
  unfold importPathsOf ImportRecord.BindsTo
  constructor
  · intro h
    obtain ⟨record, hrecord, h⟩ := List.mem_flatMap.mp h
    obtain ⟨name, hname, h⟩ := List.mem_filterMap.mp h
    obtain ⟨target, htarget, rfl⟩ := Option.map_eq_some_iff.mp h
    exact ⟨record, hrecord, _, _, ⟨name, hname, rfl, rfl⟩, htarget, rfl, rfl⟩
  · rintro ⟨record, hrecord, known, path, ⟨name, hname, rfl, rfl⟩, htarget, halias, hpath⟩
    refine List.mem_flatMap.mpr ⟨record, hrecord, List.mem_filterMap.mpr ⟨name, hname, ?_⟩⟩
    rw [htarget, Option.map_some, ← halias, ← hpath]

/-- An alias of a record is the name that it binds. -/
theorem known_eq_of_hasAlias {record : ImportRecord} {asName : String}
    (halias : record.HasAlias asName) (hbinds : record.BindsTo known path) : known = asName := by
  obtain ⟨name, -, rfl, -⟩ := hbinds
  obtain ⟨hasName, hne⟩ := halias
  simp [ImportRecord.localName, hasName, hne]

/-- The import paths of an element are the names that imports bind to it, below the modules of
their files. -/
theorem mem_importPaths_iff_bindsTo {entry : Namespace} (hentry : entry ∈ resolver.namespaces)
    {listed : String} :
    listed ∈ entry.importPaths ↔
      ∃ file ∈ resolver.files, ∃ record ∈ file.imports, ∃ known path,
        record.BindsTo known path ∧
        resolver.lookupPath path file.modulePath = some entry.elementId ∧
        listed = join [file.modulePath, known] := by
  obtain ⟨home, e, rfl⟩ := exists_of_mem_namespaces hentry
  rw [mem_importPaths_namespaceOf]
  constructor
  · rintro ⟨found, hfound, hid, rfl⟩
    obtain ⟨file, hfile, hfound⟩ := List.mem_flatMap.mp hfound
    obtain ⟨record, hrecord, known, path, hbinds, htarget, -, hpath⟩ :=
      mem_importPathsOf_iff_bindsTo.mp hfound
    exact ⟨file, hfile, record, hrecord, known, path, hbinds,
      htarget.trans (congrArg some hid), hpath⟩
  · rintro ⟨file, hfile, record, hrecord, known, path, hbinds, htarget, rfl⟩
    refine ⟨⟨e.id, record.asName.filter fun asName => asName != "",
      join [file.modulePath, known]⟩,
      List.mem_flatMap.mpr ⟨file, hfile, ?_⟩, rfl, rfl⟩
    exact mem_importPathsOf_iff_bindsTo.mpr
      ⟨record, hrecord, known, path, hbinds, htarget, rfl, rfl⟩

/-- The aliases of an element are those of the imports that lead to it. -/
theorem mem_aliases_iff_bindsTo {entry : Namespace} (hentry : entry ∈ resolver.namespaces)
    {asName : String} :
    asName ∈ entry.aliases ↔
      ∃ file ∈ resolver.files, ∃ record ∈ file.imports, ∃ path,
        record.HasAlias asName ∧ record.BindsTo asName path ∧
        resolver.lookupPath path file.modulePath = some entry.elementId := by
  obtain ⟨home, e, rfl⟩ := exists_of_mem_namespaces hentry
  rw [mem_aliases_namespaceOf]
  constructor
  · rintro ⟨found, hfound, hid, hasName⟩
    obtain ⟨file, hfile, hfound⟩ := List.mem_flatMap.mp hfound
    obtain ⟨record, hrecord, known, path, hbinds, htarget, halias, -⟩ :=
      mem_importPathsOf_iff_bindsTo.mp hfound
    have hhas := filter_asName_eq_some_iff.mp (halias.symm.trans hasName)
    obtain rfl := known_eq_of_hasAlias hhas hbinds
    exact ⟨file, hfile, record, hrecord, path, hhas, hbinds, htarget.trans (congrArg some hid)⟩
  · rintro ⟨file, hfile, record, hrecord, path, halias, hbinds, htarget⟩
    refine ⟨⟨e.id, some asName, join [file.modulePath, asName]⟩,
      List.mem_flatMap.mpr ⟨file, hfile, ?_⟩, rfl, rfl⟩
    exact mem_importPathsOf_iff_bindsTo.mpr ⟨record, hrecord, asName, path, hbinds, htarget,
      (filter_asName_eq_some_iff.mpr halias).symm, rfl⟩

end Resolver

/-- A name like an identifier that an import can make usable: {lit}`Self` always means the type
around it, and {lit}`_` nothing. -/
structure Usable (known : String) : Prop where
  word : Word known.toList
  ne_self : known ≠ "Self"
  ne_blank : known ≠ "_"

/-- The names that imports bind, those that namespaces list, and those under which elements are
found belong together. -/
structure ImportsFound (files : List FileModel) (resolver : Resolver) : Prop where
  /-- What an import leads to has a namespace. -/
  has_namespace : ∀ file ∈ files, ∀ record ∈ file.imports, ∀ known path id,
    record.BindsTo known path → resolver.lookupPath path file.modulePath = some id →
      ∃ entry ∈ resolver.namespaces, entry.elementId = id
  /-- Its namespace lists the name that the import binds. -/
  listed : ∀ file ∈ files, ∀ record ∈ file.imports, ∀ known path, record.BindsTo known path →
    ∀ entry ∈ resolver.namespaces,
      resolver.lookupPath path file.modulePath = some entry.elementId →
        join [file.modulePath, known] ∈ entry.importPaths ∧
          (record.HasAlias known → known ∈ entry.aliases)
  /-- It is found under this name in the file. -/
  found : ∀ file ∈ files, ∀ record ∈ file.imports, ∀ known path id, record.BindsTo known path →
    Usable known → resolver.lookupPath path file.modulePath = some id →
      resolver.Finds file known id
  /-- Each import path that a namespace lists is a name in a file, under which the element is
  found there. -/
  found_of_importPaths : ∀ entry ∈ resolver.namespaces, ∀ listed ∈ entry.importPaths,
    ∃ file ∈ files, ∃ record ∈ file.imports, ∃ known path, record.BindsTo known path ∧
      resolver.lookupPath path file.modulePath = some entry.elementId ∧
      listed = join [file.modulePath, known] ∧
      (Usable known → resolver.Finds file known entry.elementId)
  /-- Each alias that a namespace lists is one in a file, under which the element is found there. -/
  found_of_aliases : ∀ entry ∈ resolver.namespaces, ∀ asName ∈ entry.aliases,
    ∃ file ∈ files, ∃ record ∈ file.imports, ∃ path, record.HasAlias asName ∧
      record.BindsTo asName path ∧
      resolver.lookupPath path file.modulePath = some entry.elementId ∧
      (Usable asName → resolver.Finds file asName entry.elementId)

/-- A name that an import of a file binds leads where the import does. -/
theorem Resolver.finds_of_bindsTo {resolver : Resolver} {file : FileModel} {known path id : String}
    (honce : file.BindsOnce) {record : ImportRecord} (hrecord : record ∈ file.imports)
    (hbinds : record.BindsTo known path) (husable : Usable known)
    (hleads : resolver.lookupPath path file.modulePath = some id) :
    resolver.Finds file known id := by
  intro reference htype htext
  have himported := imported?_eq_some honce hrecord hbinds husable.ne_blank
  rw [resolve_of_imported? himported husable.word husable.ne_self htype htext, hleads]

/-- In files with distinct paths, each of which binds no name to two paths, what an import leads to
has the name of the import in its namespace and is found under it, and all names that namespaces
list are of this kind. -/
theorem Resolver.ofFiles_importsFound {files : List FileModel}
    (hpaths : (files.map FileModel.relativePath).Nodup)
    (honce : ∀ file ∈ files, file.BindsOnce) : ImportsFound files (ofFiles files) := by
  have hfiles : (ofFiles files).files = files := ofFiles_files hpaths
  constructor
  case has_namespace =>
    intro file _ record _ known path id _ hleads
    obtain ⟨home, hhome, hid⟩ :=
      List.mem_flatMap.mp (lookupPath_mem (ofFiles_canonical_within files) hleads)
    obtain ⟨e, he, rfl⟩ := List.mem_map.mp hid
    refine ⟨namespaceOf (ofFiles files).importPaths home e, ?_, rfl⟩
    exact List.mem_flatMap.mpr ⟨home, hfiles.symm ▸ hhome, List.mem_map_of_mem he⟩
  case listed =>
    intro file hfile record hrecord known path hbinds entry hentry hleads
    rw [← hfiles] at hfile
    constructor
    · exact (mem_importPaths_iff_bindsTo hentry).mpr
        ⟨file, hfile, record, hrecord, known, path, hbinds, hleads, rfl⟩
    · intro halias
      exact (mem_aliases_iff_bindsTo hentry).mpr
        ⟨file, hfile, record, hrecord, path, halias, hbinds, hleads⟩
  case found =>
    intro file hfile record hrecord known path id hbinds husable hleads
    exact finds_of_bindsTo (honce file hfile) hrecord hbinds husable hleads
  case found_of_importPaths =>
    intro entry hentry listed hlisted
    obtain ⟨file, hfile, record, hrecord, known, path, hbinds, hleads, rfl⟩ :=
      (mem_importPaths_iff_bindsTo hentry).mp hlisted
    rw [hfiles] at hfile
    exact ⟨file, hfile, record, hrecord, known, path, hbinds, hleads, rfl, fun husable =>
      finds_of_bindsTo (honce file hfile) hrecord hbinds husable hleads⟩
  case found_of_aliases =>
    intro entry hentry asName hlisted
    obtain ⟨file, hfile, record, hrecord, path, halias, hbinds, hleads⟩ :=
      (mem_aliases_iff_bindsTo hentry).mp hlisted
    rw [hfiles] at hfile
    exact ⟨file, hfile, record, hrecord, path, halias, hbinds, hleads, fun husable =>
      finds_of_bindsTo (honce file hfile) hrecord hbinds husable hleads⟩

/-! ## An import under no name -/

namespace Sample

/-- A module with a type, and an import of the type under no name. -/
def blankText : String :=
  "pub mod m \x7b pub struct T; \x7d\nuse m::T as _;\n"

/-- The tree of that text. -/
def blankRoot : Node :=
  node "source_file" "" 0 43
    [node "mod_item" "" 0 27
      [node "visibility_modifier" "" 0 3 [], node "identifier" "name" 8 9 [],
        node "declaration_list" "body" 10 27
          [node "struct_item" "" 12 25
            [node "visibility_modifier" "" 12 15 [], node "type_identifier" "name" 23 24 []]]],
    node "use_declaration" "" 28 42
      [node "use_as_clause" "argument" 32 41
        [node "scoped_identifier" "path" 32 36 [], node "identifier" "alias" 40 41 []]]]

/-- The text as the root file of a crate. -/
def blankFile : SourceFile :=
  ⟨blankText.toUTF8.toList, "src/lib.rs", ⟨true, true⟩⟩

/-- A use of a bare name at the top level of a file. -/
def bareUse (known : String) : Reference where
  origin := none
  type := .typeUsage
  text := known
  location := ⟨"src/lib.rs", 1, 1, 0, 0, 0, 0⟩
  scope := ""
  target := none

end Sample

/-- The namespace of the type lists {lit}`_` as its alias and below the module of the file, since
the import of that name leads to the type, but the name leads nowhere. -/
theorem Resolver.ofFiles_importsFound_strays :
    ∃ model, build "/p/src/lib.rs" Sample.blankFile Sample.blankText Sample.blankRoot = .ok model ∧
      model.BindsOnce ∧ ∃ record ∈ model.imports, record.BindsTo "_" "m::T" ∧
        ∃ entry ∈ (ofFiles [model]).namespaces,
          (ofFiles [model]).lookupPath "m::T" model.modulePath = some entry.elementId ∧
          join [model.modulePath, "_"] ∈ entry.importPaths ∧ "_" ∈ entry.aliases ∧
          ¬(ofFiles [model]).Finds model "_" entry.elementId := by
  have h : (build "/p/src/lib.rs" Sample.blankFile Sample.blankText Sample.blankRoot).map
      (fun model => decide (model.BindsOnce ∧
        (∃ record ∈ model.imports, record.modulePath = "m" ∧ record.names = ["T"] ∧
          record.asName = some "_") ∧
        ∃ entry ∈ (ofFiles [model]).namespaces,
          (ofFiles [model]).lookupPath "m::T" model.modulePath = some entry.elementId ∧
          join [model.modulePath, "_"] ∈ entry.importPaths ∧ "_" ∈ entry.aliases ∧
          (ofFiles [model]).resolve model (Sample.bareUse "_") = none)) = .ok true := by
    decide +kernel
  obtain ⟨model, hmodel, hfacts⟩ := Outcome.map_eq_ok_iff.mp h
  obtain ⟨honce, ⟨record, hrecord, hmodule, hnames, halias⟩, entry, hentry, hleads, hpath,
    hlisted, hnone⟩ := of_decide_eq_true hfacts
  have hbinds : record.BindsTo "_" "m::T" := by
    refine ⟨"T", by rw [hnames]; simp, ?_, ?_⟩
    · rw [ImportRecord.localName, halias]
      rfl
    · rw [hmodule]
      decide
  refine ⟨model, hmodel, honce, record, hrecord, hbinds, entry, hentry, hleads, hpath, hlisted, ?_⟩
  intro hfinds
  have hsome := hfinds (Sample.bareUse "_") (by decide) rfl
  rw [hnone] at hsome
  contradiction

/-- The alias of a function of another file is listed below the module of the file that imports it,
and leads to the function there. -/
theorem Resolver.ofFiles_importsFound_sample :
    ∃ home user,
      build "/p/src/a.rs" (Sample.file true) Sample.text Sample.root = .ok home ∧
      build "/p/src/lib.rs" Sample.usesFile Sample.usesText Sample.usesRoot = .ok user ∧
      ([home, user].map FileModel.relativePath).Nodup ∧
      (∀ file ∈ [home, user], file.BindsOnce) ∧
      ImportsFound [home, user] (ofFiles [home, user]) ∧
      (ofFiles [home, user]).Finds user "d" "src/a.rs::Function::a::c::3" := by
  have h : (build "/p/src/a.rs" (Sample.file true) Sample.text Sample.root).bind (fun home =>
      (build "/p/src/lib.rs" Sample.usesFile Sample.usesText Sample.usesRoot).map fun user =>
        decide (([home, user].map FileModel.relativePath).Nodup ∧
          (∀ file ∈ [home, user], file.BindsOnce) ∧
          (∃ record ∈ user.imports, record.modulePath = "crate::a::a" ∧ record.names = ["c"] ∧
            record.asName = some "d") ∧
          (ofFiles [home, user]).lookupPath "crate::a::a::c" user.modulePath =
            some "src/a.rs::Function::a::c::3")) = .ok true := by
    decide +kernel
  obtain ⟨home, hhome, h⟩ := Outcome.bind_eq_ok_iff.mp h
  obtain ⟨user, huser, hfacts⟩ := Outcome.map_eq_ok_iff.mp h
  obtain ⟨hpaths, honce, ⟨record, hrecord, hmodule, hnames, halias⟩, hleads⟩ :=
    of_decide_eq_true hfacts
  have hfound := ofFiles_importsFound hpaths honce
  have hbinds : record.BindsTo "d" "crate::a::a::c" := by
    refine ⟨"c", by rw [hnames]; simp, ?_, ?_⟩
    · rw [ImportRecord.localName, halias]
      rfl
    · rw [hmodule]
      decide
  exact ⟨home, user, hhome, huser, hpaths, honce, hfound,
    hfound.found user (by simp) record hrecord _ _ _ hbinds ⟨by decide, by decide, by decide⟩
      hleads⟩

end CrateAtlas
