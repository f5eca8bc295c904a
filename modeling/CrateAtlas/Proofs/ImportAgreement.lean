import CrateAtlas.Proofs.Enclosure
import CrateAtlas.Proofs.Integrity
import Mathlib.Data.List.Forall2

/-!
# Imports, the references to them, and namespaces

Use declarations are read three times.  Their records are the imports of a file, each name in them
is a reference of its own, and once the references are resolved, the namespace of an element lists
the names under which it was imported.  All three agree.

Main results:

- Theorem {lit}`UseSite.makes_of_expand`: what the records of a use tree have in common.
- Theorem {lit}`FileModel.importsCited_of_build`: a file starts with one reference for each name
  that its imports list.
- Theorem {lit}`Resolver.mem_importPathsOf_iff`: the imports that reach an element are those whose
  references have it as their target.
- Theorem {lit}`ProjectModel.aggregate_importsAgree`: the imports, references and namespaces of a
  project.
-/

namespace CrateAtlas

open ScopePath

/-! ## Records of a use tree -/

/-- What the records of a use declaration have in common: they stand at its line, and each lists one
name unless it imports everything. -/
structure UseSite.Makes (site : UseSite) (record : ImportRecord) : Prop where
  line_eq : record.line = site.line
  names_eq : record.isGlob = false → ∃ name, record.names = [name]

namespace UseSite

variable {site : UseSite} {source : Source} {base : String} {records : List ImportRecord}

theorem makes_named (site : UseSite) (base path : String) (asName : Option String) :
    site.Makes (site.named base path asName) :=
  ⟨rfl, fun _ => ⟨_, rfl⟩⟩

theorem makes_glob (site : UseSite) (modulePath : String) : site.Makes (site.glob modulePath) :=
  ⟨rfl, fun h => Bool.noConfusion h⟩

theorem makes_of_renamed {node : Node} (h : site.renamed source base node = .ok records) :
    ∀ record ∈ records, site.Makes record := by
  unfold renamed at h
  split at h
  · cases h
    simp
  · simp only [Outcome.bind_eq_ok_iff] at h
    obtain ⟨text, -, h⟩ := h
    split at h
    · simp only [Outcome.bind_eq_ok_iff, Outcome.pure_eq_ok_iff] at h
      obtain ⟨name, -, rfl⟩ := h
      simp [makes_named]
    · cases h
      simp [makes_named]

mutual

/-- What the records of a use tree have in common, by recursion on the tree. -/
theorem makes_of_expand : ∀ {base : String} (node : Node) {records : List ImportRecord},
    site.expand source base node = .ok records → ∀ record ∈ records, site.Makes record
  | base, .mk label children, records, h => by
      -- In turn: a comment, a path, a renamed path, everything in a module, a group behind a path,
      -- and the list of a group.
      rw [expand] at h
      split at h
      · cases h
        simp
      split at h
      · obtain ⟨text, -, rfl⟩ := Outcome.map_eq_ok_iff.mp h
        simp [makes_named]
      split at h
      · exact makes_of_renamed h
      split at h
      · obtain ⟨text, -, rfl⟩ := Outcome.map_eq_ok_iff.mp h
        simp [makes_glob]
      split at h
      · obtain ⟨group, -, h⟩ := Outcome.bind_eq_ok_iff.mp h
        exact makes_of_expandGroup children h
      split at h
      · exact makes_of_expandAll children h
      · cases h
        simp

theorem makes_of_expandGroup : ∀ {base : String} (nodes : List Node)
    {records : List ImportRecord}, site.expandGroup source base nodes = .ok records →
      ∀ record ∈ records, site.Makes record
  | base, [], records, h => by
      rw [expandGroup] at h
      cases h
      simp
  | base, node :: rest, records, h => by
      rw [expandGroup] at h
      split at h
      · exact makes_of_expand node h
      · exact makes_of_expandGroup rest h

theorem makes_of_expandAll : ∀ {base : String} (nodes : List Node)
    {records : List ImportRecord}, site.expandAll source base nodes = .ok records →
      ∀ record ∈ records, site.Makes record
  | base, [], records, h => by
      rw [expandAll] at h
      cases h
      simp
  | base, node :: rest, records, h => by
      rw [expandAll] at h
      split at h
      · simp only [Outcome.bind_eq_ok_iff, Outcome.pure_eq_ok_iff] at h
        obtain ⟨here, hhere, later, hlater, rfl⟩ := h
        intro record hrecord
        rcases List.mem_append.mp hrecord with hrecord | hrecord
        · exact makes_of_expand node hhere record hrecord
        · exact makes_of_expandAll rest hlater record hrecord
      · simp only [Outcome.bind_eq_ok_iff, Outcome.pure_eq_ok_iff] at h
        obtain ⟨here, hhere, later, hlater, rfl⟩ := h
        cases hhere
        exact makes_of_expandAll rest hlater

end

end UseSite

/-- The records of a use declaration stand at the line where it starts. -/
theorem UseDeclaration.exists_site_of_ofRoot {source : Source} {root : Node}
    {declarations : List UseDeclaration} (h : ofRoot source root = .ok declarations) :
    ∀ declaration ∈ declarations, ∃ site : UseSite,
      site.line = source.row declaration.label.start + 1 ∧
        ∀ record ∈ declaration.records, site.Makes record := by
  obtain ⟨found, hfound, rfl⟩ := Outcome.map_eq_ok_iff.mp h
  intro declaration hdeclaration
  obtain ⟨entry, hentry, rfl⟩ := List.mem_filterMap.mp hdeclaration
  obtain ⟨node, -, hnode⟩ := Outcome.exists_of_mapM_eq_ok hfound _ hentry
  unfold ofNode at hnode
  split at hnode
  · split at hnode
    · obtain ⟨records, hrecords, hsome⟩ := Outcome.map_eq_ok_iff.mp hnode
      cases hsome
      exact ⟨UseSite.ofNode source node, rfl, UseSite.makes_of_expand _ hrecords⟩
    · cases hnode
  · cases hnode

/-! ## References to imports -/

/-- A reference cites a record: it is made by no element, and it spells the one name that the record
imports, at the line of the record. -/
structure ImportRecord.CitedBy (record : ImportRecord) (reference : Reference) : Prop where
  origin_eq : reference.origin = none
  type_eq : reference.type = .importReference
  text_eq : ∃ name, record.names = [name] ∧ reference.text = join [record.modulePath, name]
  line_eq : (reference.location.lineStart : Int) = record.line

namespace FileModel

/-- The imports of a file that list a name. -/
def namedImports (model : FileModel) : List ImportRecord :=
  model.imports.filter fun record => !record.isGlob

/-- A file starts with one reference for each import that lists a name, in the same order, and none
of the references that follow is one of an import. -/
def ImportsCited (model : FileModel) : Prop :=
  ∃ heads others, model.references = heads ++ others ∧
    List.Forall₂ ImportRecord.CitedBy model.namedImports heads ∧
    ∀ reference ∈ others, reference.type ≠ .importReference

theorem citedBy_importReferences (file : SourceFile) {declaration : UseDeclaration}
    {site : UseSite} (hline : site.line = file.source.row declaration.label.start + 1)
    (hmakes : ∀ record ∈ declaration.records, site.Makes record) :
    List.Forall₂ ImportRecord.CitedBy
      (declaration.records.filter fun record => !record.isGlob)
      (importReferences file declaration) := by
  unfold importReferences
  simp only
  generalize declaration.records = records at hmakes ⊢
  induction records with
  | nil => exact .nil
  | cons record rest ih =>
      have hrest := ih fun other hother => hmakes other (List.mem_cons_of_mem _ hother)
      obtain ⟨hrecord, hnames⟩ := hmakes record List.mem_cons_self
      rw [List.flatMap_cons]
      cases hglob : record.isGlob with
      | true =>
          rw [List.filter_cons_of_neg (by simp [hglob]), record.names_eq_nil hglob]
          exact hrest
      | false =>
          obtain ⟨name, hname⟩ := hnames hglob
          rw [List.filter_cons_of_pos (by simp [hglob]), hname]
          refine .cons ⟨rfl, rfl, ⟨name, hname, rfl⟩, ?_⟩ hrest
          rw [hrecord, hline]
          rfl

theorem importsCited_of_unresolved {path : String} {file : SourceFile} {text : String}
    {root : Node} {model : FileModel} (h : unresolved path file text root = .ok model) :
    importsOf file.source root = .ok model.imports ∧ model.ImportsCited := by
  simp only [unresolved, Outcome.bind_eq_ok_iff, Outcome.pure_eq_ok_iff,
    Outcome.mapError_eq_ok_iff] at h
  obtain ⟨elements, helements, declarations, hdeclarations, modulePath, -, rfl⟩ := h
  have hsites := UseDeclaration.exists_site_of_ofRoot hdeclarations
  refine ⟨Outcome.map_eq_ok_iff.mpr ⟨declarations, hdeclarations, rfl⟩,
    declarations.flatMap (importReferences file), _, rfl, ?_, ?_⟩
  · clear hdeclarations
    rw [namedImports, List.filter_flatMap]
    induction declarations with
    | nil => exact .nil
    | cons declaration rest ih =>
        obtain ⟨site, hline, hmakes⟩ := hsites declaration List.mem_cons_self
        exact List.rel_append (citedBy_importReferences file hline hmakes)
          (ih fun other hother => hsites other (List.mem_cons_of_mem _ hother))
  · intro reference hreference
    obtain ⟨e, he, hmade⟩ := List.mem_flatMap.mp hreference
    obtain ⟨usage, husage, rfl⟩ := List.mem_map.mp hmade
    exact usage_type_ne_of_elementsOf helements e he usage husage

/-- Resolving the references of a file changes their targets only. -/
theorem ImportsCited.resolveFile {model : FileModel} (h : model.ImportsCited)
    (resolver : Resolver) : (resolver.resolveFile model).ImportsCited := by
  obtain ⟨heads, others, hreferences, hcited, hothers⟩ := h
  refine ⟨_, _, by rw [Resolver.resolveFile, hreferences, List.map_append], ?_, ?_⟩
  · rw [List.forall₂_map_right_iff]
    refine hcited.imp fun record reference h => ?_
    exact ⟨h.origin_eq, h.type_eq, h.text_eq, h.line_eq⟩
  · intro reference hreference
    obtain ⟨old, hold, rfl⟩ := List.mem_map.mp hreference
    exact hothers old hold

/-- The imports of a file are those that its syntax tree gives, and it starts with the references to
them. -/
theorem importsCited_of_build {path : String} {file : SourceFile} {text : String} {root : Node}
    {model : FileModel} (h : build path file text root = .ok model) :
    importsOf file.source root = .ok model.imports ∧ model.ImportsCited := by
  obtain ⟨unsettled, hunresolved, rfl⟩ := Outcome.map_eq_ok_iff.mp h
  obtain ⟨himports, hcited⟩ := importsCited_of_unresolved hunresolved
  exact ⟨himports, hcited.resolveFile _⟩

/-- The imports of a file that list a name, each with the reference that cites it. -/
def importPairs (model : FileModel) : List (ImportRecord × Reference) :=
  model.namedImports.zip model.references

theorem ImportsCited.mem_importPairs {model : FileModel} (h : model.ImportsCited)
    {pair : ImportRecord × Reference} (hpair : pair ∈ model.importPairs) :
    pair.1 ∈ model.imports ∧ pair.1.CitedBy pair.2 := by
  obtain ⟨heads, others, hreferences, hcited, -⟩ := h
  have hsplit : model.importPairs = model.namedImports.zip heads := by
    have hzip : (model.namedImports ++ []).zip (heads ++ others) =
        model.namedImports.zip heads ++ [].zip others := List.zip_append hcited.length_eq
    rwa [List.append_nil, List.zip_nil_left, List.append_nil, ← hreferences] at hzip
  rw [hsplit] at hpair
  have hrecord := (List.of_mem_zip hpair).1
  exact ⟨(List.mem_filter.mp hrecord).1, List.forall₂_zip hcited hpair⟩

theorem ImportsCited.map_fst_importPairs {model : FileModel} (h : model.ImportsCited) :
    model.importPairs.map Prod.fst = model.namedImports := by
  obtain ⟨heads, others, hreferences, hcited, -⟩ := h
  have hlength : model.namedImports.length ≤ model.references.length := by
    rw [hreferences, hcited.length_eq, List.length_append]
    omega
  rw [importPairs, List.map_fst_zip hlength]

end FileModel

/-! ## Imports that reach an element -/

/-- A record binds a name: it is the alias of the record, or else the one name that it lists. -/
def ImportRecord.Binds (record : ImportRecord) (known : String) : Prop :=
  ∃ name, record.names = [name] ∧ known = record.localName name

/-- An alias of a record, where an empty one counts for nothing. -/
def ImportRecord.HasAlias (record : ImportRecord) (asName : String) : Prop :=
  record.asName = some asName ∧ asName ≠ ""

namespace Resolver

variable {resolver : Resolver} {model : FileModel}

/-- In a resolved file, the reference that cites a record leads where the path of the record
does. -/
theorem exists_of_mem_importPairs (h : model.ImportsCited) {pair : ImportRecord × Reference}
    (hpair : pair ∈ (resolver.resolveFile model).importPairs) :
    pair.1 ∈ model.imports ∧ ∃ name, pair.1.names = [name] ∧
      pair.2.target =
        resolver.lookupPath (join [pair.1.modulePath, name]) model.modulePath := by
  have hpairs : (resolver.resolveFile model).importPairs = model.importPairs.map
      (Prod.map id fun reference =>
        { reference with target := resolver.resolve model reference }) := by
    rw [FileModel.importPairs, FileModel.importPairs, ← List.zip_map_right]
    rfl
  rw [hpairs] at hpair
  obtain ⟨old, hold, rfl⟩ := List.mem_map.mp hpair
  obtain ⟨hrecord, hcited⟩ := h.mem_importPairs hold
  obtain ⟨name, hname, htext⟩ := hcited.text_eq
  refine ⟨hrecord, name, hname, ?_⟩
  show resolver.resolve model old.2 = _
  rw [resolve, if_pos hcited.type_eq, htext]
  rfl

/-- The imports of a file that reach an element are those whose references have it as their
target. -/
theorem mem_importPathsOf_iff (h : model.ImportsCited) {found : ImportPath} :
    found ∈ resolver.importPathsOf model ↔
      ∃ pair ∈ (resolver.resolveFile model).importPairs, pair.2.target = some found.target ∧
        found.asName = pair.1.asName.filter (fun asName => asName != "") ∧
        ∃ known, pair.1.Binds known ∧ found.path = join [model.modulePath, known] := by
  constructor
  · intro hfound
    obtain ⟨record, hrecord, hfound⟩ := List.mem_flatMap.mp hfound
    obtain ⟨name, hname, hfound⟩ := List.mem_filterMap.mp hfound
    obtain ⟨target, htarget, rfl⟩ := Option.map_eq_some_iff.mp hfound
    have hglob : record.isGlob = false := by
      cases hrecordGlob : record.isGlob with
      | false => rfl
      | true =>
          rw [record.names_eq_nil hrecordGlob] at hname
          cases hname
    have hnamed : record ∈ (resolver.resolveFile model).namedImports :=
      List.mem_filter.mpr ⟨hrecord, by simp [hglob]⟩
    rw [← (h.resolveFile resolver).map_fst_importPairs] at hnamed
    obtain ⟨pair, hpair, rfl⟩ := List.mem_map.mp hnamed
    obtain ⟨-, name', hnames, hleads⟩ := exists_of_mem_importPairs h hpair
    obtain rfl : name = name' := by simpa [hnames] using hname
    exact ⟨pair, hpair, hleads.trans htarget, rfl, _, ⟨name, hnames, rfl⟩, rfl⟩
  · rintro ⟨pair, hpair, htarget, halias, known, ⟨name, hnames, rfl⟩, hpath⟩
    obtain ⟨hrecord, name', hnames', hleads⟩ := exists_of_mem_importPairs h hpair
    obtain rfl : name = name' := by simpa [hnames] using hnames'
    refine List.mem_flatMap.mpr ⟨pair.1, hrecord, List.mem_filterMap.mpr ⟨name, ?_, ?_⟩⟩
    · simp [hnames]
    · rw [← hleads, htarget, Option.map_some, ← halias, ← hpath]

end Resolver

/-! ## Names that make one path -/

/-- A name without colons in it, as identifiers are. -/
def IsSegment (name : String) : Prop :=
  name ≠ "" ∧ ':' ∉ name.toList

instance (name : String) : Decidable (IsSegment name) :=
  inferInstanceAs (Decidable (_ ∧ _))

/-- A path below a module tells the module and the last name. -/
theorem join_pair_inj {home home' known known' : String} (hhome' : home' ≠ "")
    (hknown : IsSegment known) (hknown' : IsSegment known')
    (h : join [home, known] = join [home', known']) : home = home' ∧ known = known' := by
  have hlist := congrArg String.toList h
  by_cases hhome : home = ""
  · -- Then the whole path is one name, although a module stands before the other one.
    rw [hhome, join_nil_left, toList_continued hhome' hknown'.1] at hlist
    exact absurd (by simp [hlist, separator]) hknown.2
  · -- No colon follows the last separator on either side, so both are cut at the same place.
    rw [toList_continued hhome hknown.1, toList_continued hhome' hknown'.1] at hlist
    have hforth := extends_of_append_eq hknown.2 hlist
    have hback := extends_of_append_eq hknown'.2 hlist.symm
    have hcut : home.toList ++ separator = home'.toList ++ separator :=
      hback.eq_of_length_le (List.IsPrefix.length_le hforth)
    rw [hcut] at hlist
    exact ⟨String.toList_inj.mp (List.append_cancel_right hcut),
      String.toList_inj.mp (List.append_cancel_left hlist)⟩

theorem FileModel.modulePath_ne_of_build {path : String} {file : SourceFile} {text : String}
    {root : Node} {model : FileModel} (h : build path file text root = .ok model) :
    model.modulePath ≠ "" := by
  obtain ⟨unsettled, hunresolved, rfl⟩ := Outcome.map_eq_ok_iff.mp h
  simp only [unresolved, Outcome.bind_eq_ok_iff, Outcome.pure_eq_ok_iff,
    Outcome.mapError_eq_ok_iff] at hunresolved
  obtain ⟨elements, -, declarations, -, modulePath, hmodulePath, rfl⟩ := hunresolved
  obtain ⟨parts, -, rfl⟩ := Outcome.map_eq_ok_iff.mp hmodulePath
  exact join_ne_empty (by decide) _

/-! ## Namespaces -/

theorem nodup_eraseDups {α : Type} [BEq α] [LawfulBEq α] (xs : List α) : xs.eraseDups.Nodup := by
  induction hlength : xs.length using Nat.strong_induction_on generalizing xs with
  | h n ih =>
      cases xs with
      | nil => simp
      | cons x rest =>
          have hle := List.length_filter_le (fun y => !y == x) rest
          rw [List.length_cons] at hlength
          rw [List.eraseDups_cons, List.nodup_cons]
          refine ⟨?_, ih _ (by omega) _ rfl⟩
          simp [List.mem_eraseDups]

/-- A file imports an element under a name: one of its imports binds the name, and the reference
that cites this import has the element as its target. -/
def FileModel.ImportsAs (model : FileModel) (id known : String) : Prop :=
  ∃ pair ∈ model.importPairs, pair.2.target = some id ∧ pair.1.Binds known

/-- A file imports an element under an alias. -/
def FileModel.ImportsWithAlias (model : FileModel) (id asName : String) : Prop :=
  ∃ pair ∈ model.importPairs, pair.2.target = some id ∧ pair.1.HasAlias asName

/-- How the imports of the files of a project, the references to them and the namespaces of its
elements belong together. -/
structure ProjectModel.ImportsAgree (model : ProjectModel) : Prop where
  cited : ∀ file ∈ model.files, file.ImportsCited
  /-- There is one namespace for each element, in the order of the elements. -/
  namespaces_eq : model.namespaces.map Namespace.elementId = model.elements.map Element.id
  /-- The import paths of an element are the names under which files import it, below the modules
  of these files. -/
  mem_importPaths_iff : ∀ entry ∈ model.namespaces, ∀ path, path ∈ entry.importPaths ↔
    ∃ file ∈ model.files, ∃ known, file.ImportsAs entry.elementId known ∧
      path = join [file.modulePath, known]
  /-- Where all imports bind identifiers, the path alone tells the module and the name. -/
  join_mem_importPaths_iff : (∀ file ∈ model.files, ∀ record ∈ file.imports, ∀ known,
      record.Binds known → IsSegment known) →
    ∀ entry ∈ model.namespaces, ∀ home known, IsSegment known →
      (join [home, known] ∈ entry.importPaths ↔
        ∃ file ∈ model.files, file.modulePath = home ∧ file.ImportsAs entry.elementId known)
  mem_aliases_iff : ∀ entry ∈ model.namespaces, ∀ asName, asName ∈ entry.aliases ↔
    ∃ file ∈ model.files, file.ImportsWithAlias entry.elementId asName
  importPaths_nodup : ∀ entry ∈ model.namespaces, entry.importPaths.Nodup
  aliases_nodup : ∀ entry ∈ model.namespaces, entry.aliases.Nodup

namespace Resolver

variable {resolver : Resolver} {entry : Namespace}

/-- What is known of the imports that reach an element, read off the resolved files. -/
theorem exists_importPath_iff (hcited : ∀ file ∈ resolver.files, file.ImportsCited) {id : String}
    {P : ImportPath → Prop} :
    (∃ found ∈ resolver.importPaths, found.target = id ∧ P found) ↔
      ∃ file ∈ resolver.files.map resolver.resolveFile, ∃ pair ∈ file.importPairs,
        pair.2.target = some id ∧ ∃ known, pair.1.Binds known ∧
          P ⟨id, pair.1.asName.filter fun asName => asName != "",
            join [file.modulePath, known]⟩ := by
  constructor
  · rintro ⟨found, hfound, rfl, hP⟩
    obtain ⟨file, hfile, hfound⟩ := List.mem_flatMap.mp hfound
    obtain ⟨pair, hpair, htarget, halias, known, hbinds, hpath⟩ :=
      (mem_importPathsOf_iff (hcited file hfile)).mp hfound
    refine ⟨_, List.mem_map_of_mem hfile, pair, hpair, htarget, known, hbinds, ?_⟩
    rw [← halias]
    show P ⟨_, _, join [file.modulePath, known]⟩
    rw [← hpath]
    exact hP
  · rintro ⟨resolved, hresolved, pair, hpair, htarget, known, hbinds, hP⟩
    obtain ⟨file, hfile, rfl⟩ := List.mem_map.mp hresolved
    refine ⟨_, List.mem_flatMap.mpr ⟨file, hfile, ?_⟩, rfl, hP⟩
    exact (mem_importPathsOf_iff (hcited file hfile)).mpr
      ⟨pair, hpair, htarget, rfl, known, hbinds, rfl⟩

/-- The namespaces of a project are made from the imports of all its files. -/
theorem exists_of_mem_namespaces (h : entry ∈ resolver.namespaces) :
    ∃ file e, entry = namespaceOf resolver.importPaths file e := by
  obtain ⟨file, -, hentry⟩ := List.mem_flatMap.mp h
  obtain ⟨e, -, rfl⟩ := List.mem_map.mp hentry
  exact ⟨file, e, rfl⟩

theorem mem_importPaths_namespaceOf {imports : List ImportPath} {home : FileModel} {e : Element}
    {path : String} :
    path ∈ (namespaceOf imports home e).importPaths ↔
      ∃ found ∈ imports, found.target = e.id ∧ found.path = path := by
  simp [namespaceOf, List.mem_eraseDups, and_assoc]

theorem mem_aliases_namespaceOf {imports : List ImportPath} {home : FileModel} {e : Element}
    {asName : String} :
    asName ∈ (namespaceOf imports home e).aliases ↔
      ∃ found ∈ imports, found.target = e.id ∧ found.asName = some asName := by
  simp [namespaceOf, List.mem_eraseDups, and_assoc]

/-- An alias is listed unless it is empty. -/
theorem filter_asName_eq_some_iff {record : ImportRecord} {asName : String} :
    (record.asName.filter fun asName => asName != "") = some asName ↔
      record.HasAlias asName := by
  simp [ImportRecord.HasAlias, Option.filter_eq_some_iff]

/-- The import paths of an element are the names under which files import it, below the modules of
these files. -/
theorem mem_importPaths_iff (hcited : ∀ file ∈ resolver.files, file.ImportsCited)
    (h : entry ∈ resolver.namespaces) {path : String} :
    path ∈ entry.importPaths ↔
      ∃ file ∈ resolver.files.map resolver.resolveFile, ∃ known,
        file.ImportsAs entry.elementId known ∧ path = join [file.modulePath, known] := by
  obtain ⟨home, e, rfl⟩ := exists_of_mem_namespaces h
  rw [mem_importPaths_namespaceOf, exists_importPath_iff hcited]
  constructor
  · rintro ⟨file, hfile, pair, hpair, htarget, known, hbinds, rfl⟩
    exact ⟨file, hfile, known, ⟨pair, hpair, htarget, hbinds⟩, rfl⟩
  · rintro ⟨file, hfile, known, ⟨pair, hpair, htarget, hbinds⟩, rfl⟩
    exact ⟨file, hfile, pair, hpair, htarget, known, hbinds, rfl⟩

/-- The aliases of an element are those under which files import it. -/
theorem mem_aliases_iff (hcited : ∀ file ∈ resolver.files, file.ImportsCited)
    (h : entry ∈ resolver.namespaces) {asName : String} :
    asName ∈ entry.aliases ↔
      ∃ file ∈ resolver.files.map resolver.resolveFile,
        file.ImportsWithAlias entry.elementId asName := by
  obtain ⟨home, e, rfl⟩ := exists_of_mem_namespaces h
  rw [mem_aliases_namespaceOf, exists_importPath_iff hcited]
  constructor
  · rintro ⟨file, hfile, pair, hpair, htarget, known, -, hasName⟩
    exact ⟨file, hfile, pair, hpair, htarget, filter_asName_eq_some_iff.mp hasName⟩
  · rintro ⟨resolved, hresolved, pair, hpair, htarget, hasName⟩
    obtain ⟨file, hfile, rfl⟩ := List.mem_map.mp hresolved
    obtain ⟨-, name, hnames, -⟩ := exists_of_mem_importPairs (hcited file hfile) hpair
    exact ⟨_, hresolved, pair, hpair, htarget, _, ⟨name, hnames, rfl⟩,
      filter_asName_eq_some_iff.mpr hasName⟩

/-- A namespace lists nothing twice. -/
theorem nodup_of_mem_namespaces (h : entry ∈ resolver.namespaces) :
    entry.importPaths.Nodup ∧ entry.aliases.Nodup := by
  obtain ⟨file, e, rfl⟩ := exists_of_mem_namespaces h
  exact ⟨nodup_eraseDups _, nodup_eraseDups _⟩

end Resolver

namespace ProjectModel

/-- Files that start with the references to their imports are joined to a project in which imports,
references and namespaces agree. -/
theorem importsAgree_of_cited (project : ProjectInfo) {files : List FileModel}
    (failures : List FileFailure) (dependencies : Dependencies) (runId extractedAt : String)
    (hcited : ∀ file ∈ files, file.ImportsCited) (hne : ∀ file ∈ files, file.modulePath ≠ "")
    (hpaths : (files.map FileModel.relativePath).Nodup) :
    (aggregate project files failures dependencies runId extractedAt).ImportsAgree := by
  have hperm := ordered_perm files
  have hfiles : (Resolver.ofFiles (ordered files)).files = ordered files :=
    Resolver.ofFiles_files ((hperm.map _).nodup_iff.mpr hpaths)
  have hknown : ∀ file ∈ (Resolver.ofFiles (ordered files)).files, file.ImportsCited := by
    rw [hfiles]
    exact fun file hfile => hcited file (hperm.mem_iff.mp hfile)
  have hresolved : (aggregate project files failures dependencies runId extractedAt).files =
      (Resolver.ofFiles (ordered files)).files.map
        (Resolver.ofFiles (ordered files)).resolveFile := by
    rw [hfiles]
    rfl
  have hlaws : ∀ file ∈ (aggregate project files failures dependencies runId extractedAt).files,
      file.ImportsCited ∧ file.modulePath ≠ "" := by
    intro file hfile
    obtain ⟨old, hold, rfl⟩ := List.mem_map.mp hfile
    have hmem := hperm.mem_iff.mp hold
    exact ⟨(hcited old hmem).resolveFile _, hne old hmem⟩
  have hmem : ∀ entry ∈ (aggregate project files failures dependencies runId
      extractedAt).namespaces, ∀ path, path ∈ entry.importPaths ↔
        ∃ file ∈ (aggregate project files failures dependencies runId extractedAt).files,
          ∃ known, file.ImportsAs entry.elementId known ∧ path = join [file.modulePath, known] := by
    intro entry hentry path
    rw [hresolved]
    exact Resolver.mem_importPaths_iff hknown hentry
  refine ⟨fun file hfile => (hlaws file hfile).1,
    namespaces_aggregate project failures dependencies runId extractedAt hpaths, hmem, ?_, ?_,
    fun entry hentry => (Resolver.nodup_of_mem_namespaces hentry).1,
    fun entry hentry => (Resolver.nodup_of_mem_namespaces hentry).2⟩
  · intro hsegments entry hentry home known hsegment
    rw [hmem entry hentry]
    constructor
    · rintro ⟨file, hfile, other, ⟨pair, hpair, htarget, hbinds⟩, hjoin⟩
      obtain ⟨hfileCited, hfileNe⟩ := hlaws file hfile
      have hother := hsegments file hfile pair.1 (hfileCited.mem_importPairs hpair).1 other hbinds
      obtain ⟨rfl, rfl⟩ := join_pair_inj hfileNe hsegment hother hjoin
      exact ⟨file, hfile, rfl, pair, hpair, htarget, hbinds⟩
    · rintro ⟨file, hfile, rfl, himports⟩
      exact ⟨file, hfile, known, himports, rfl⟩
  · intro entry hentry asName
    rw [hresolved]
    exact Resolver.mem_aliases_iff hknown hentry

/-- The imports of a file are those that its syntax tree gives, and the file starts with one
reference for each name that they list.  In a project of such files the namespaces list the imports
whose references lead to an element, each once. -/
theorem aggregate_importsAgree :
    (∀ (path : String) (file : SourceFile) (text : String) (root : Node) (model : FileModel),
      FileModel.build path file text root = .ok model →
        importsOf file.source root = .ok model.imports ∧ model.ImportsCited) ∧
      ∀ (project : ProjectInfo) (files : List FileModel) (failures : List FileFailure)
        (dependencies : Dependencies) (runId extractedAt : String),
        (∀ model ∈ files, ∃ path file text root, FileModel.build path file text root = .ok model) →
        (files.map FileModel.relativePath).Nodup →
          (aggregate project files failures dependencies runId extractedAt).ImportsAgree := by
  constructor
  · intro path file text root model hbuild
    exact FileModel.importsCited_of_build hbuild
  · intro project files failures dependencies runId extractedAt hbuilt hpaths
    refine importsAgree_of_cited project failures dependencies runId extractedAt ?_ ?_ hpaths
    · intro model hmodel
      obtain ⟨path, file, text, root, hbuild⟩ := hbuilt model hmodel
      exact (FileModel.importsCited_of_build hbuild).2
    · intro model hmodel
      obtain ⟨path, file, text, root, hbuild⟩ := hbuilt model hmodel
      exact FileModel.modulePath_ne_of_build hbuild

end ProjectModel

/-! ## A file that imports from another one -/

namespace Sample

/-- A use declaration with an alias, a plain name and everything in a module. -/
def usesText : String :=
  "use crate::a::a::\x7bc as d, b, e::*\x7d;\n"

/-- The tree of that text. -/
def usesRoot : Node :=
  node "source_file" "" 0 36
    [node "use_declaration" "" 0 35
      [node "scoped_use_list" "argument" 4 34
        [node "scoped_identifier" "path" 4 15 [],
          node "use_list" "list" 17 34
            [node "use_as_clause" "" 18 24
                [node "identifier" "path" 18 19 [], node "identifier" "alias" 23 24 []],
              node "identifier" "" 26 27 [],
              node "use_wildcard" "" 29 33 [node "identifier" "" 29 30 []]]]]]

/-- The text as the root file of a crate. -/
def usesFile : SourceFile :=
  ⟨usesText.toUTF8.toList, "src/lib.rs", ⟨true, true⟩⟩

end Sample

/-- The imports of two functions of a sample file are found in the other file, in its references and
in the namespaces of both functions. -/
theorem ProjectModel.aggregate_importsAgree_sample :
    ∃ home user : FileModel,
      FileModel.build "/p/src/a.rs" (Sample.file true) Sample.text Sample.root = .ok home ∧
      FileModel.build "/p/src/lib.rs" Sample.usesFile Sample.usesText Sample.usesRoot =
        .ok user ∧
      importsOf Sample.usesFile.source Sample.usesRoot = .ok user.imports ∧
      user.namedImports.length = 2 ∧ user.ImportsCited ∧
      (aggregate (Manifest.projectInfo "/p" none) [home, user] [] ⟨[], [], []⟩ "run"
        "now").ImportsAgree ∧
      ∃ entry ∈ (aggregate (Manifest.projectInfo "/p" none) [home, user] [] ⟨[], [], []⟩ "run"
        "now").namespaces, entry.importPaths = ["crate::d"] ∧ entry.aliases = ["d"] := by
  have h : (FileModel.build "/p/src/a.rs" (Sample.file true) Sample.text Sample.root).bind
      (fun home =>
        (FileModel.build "/p/src/lib.rs" Sample.usesFile Sample.usesText Sample.usesRoot).map
          fun user => decide (home.relativePath ≤ user.relativePath ∧
            home.relativePath ≠ user.relativePath ∧ user.namedImports.length = 2 ∧
            ∃ entry ∈ (Resolver.ofFiles [home, user]).namespaces,
              entry.importPaths = ["crate::d"] ∧ entry.aliases = ["d"])) = .ok true := by
    decide +kernel
  obtain ⟨home, hhome, h⟩ := Outcome.bind_eq_ok_iff.mp h
  obtain ⟨user, huser, hfacts⟩ := Outcome.map_eq_ok_iff.mp h
  obtain ⟨hle, hne, hlength, hentry⟩ := of_decide_eq_true hfacts
  have hordered : ordered [home, user] = [home, user] :=
    List.mergeSort_of_pairwise (by simpa using hle)
  have hnamespaces : (aggregate (Manifest.projectInfo "/p" none) [home, user] [] ⟨[], [], []⟩
      "run" "now").namespaces = (Resolver.ofFiles [home, user]).namespaces := by
    rw [aggregate, hordered]
  obtain ⟨hfile, hproject⟩ := aggregate_importsAgree
  obtain ⟨himports, hcited⟩ := hfile _ _ _ _ _ huser
  refine ⟨home, user, hhome, huser, himports, hlength, hcited, ?_, hnamespaces ▸ hentry⟩
  refine hproject _ [home, user] _ _ _ _ ?_ (by simpa using hne)
  intro model hmodel
  rcases List.mem_pair.mp hmodel with rfl | rfl
  · exact ⟨_, _, _, _, hhome⟩
  · exact ⟨_, _, _, _, huser⟩

end CrateAtlas
