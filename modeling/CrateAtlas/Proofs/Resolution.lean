import CrateAtlas.Project.Model
import CrateAtlas.Proofs.Placement

/-!
# Where references come from and where they lead

Tables of names hold identifiers of elements and nothing else, so whatever way a name is looked
up, the answer is the identifier of an element.  References are made by the elements of their own
file, except for those of imports.

Main results:

- Theorem {lit}`Resolver.resolve_mem`: the target of a reference is the identifier of an element.
- Theorem {lit}`Resolver.ofFiles_files`: files with distinct paths are all kept, in their order.
- Theorem {lit}`FileModel.sound_of_build`: who makes the references of a file.
-/

namespace CrateAtlas

/-! ## Tables of names -/

/-- A member of a list with distinct keys is the one found under its key. -/
theorem find?_eq_some_of_nodup {α : Type} {key : α → String} {xs : List α} {a : α}
    (hnodup : (xs.map key).Nodup) (ha : a ∈ xs) :
    (xs.find? fun b => key b == key a) = some a := by
  have hfound : (xs.find? fun b => key b == key a).isSome :=
    List.find?_isSome.mpr ⟨a, ha, by simp⟩
  obtain ⟨b, hb⟩ := Option.isSome_iff_exists.mp hfound
  have hsame : key b = key a := by simpa using List.find?_some hb
  rw [hb, List.inj_on_of_nodup_map hnodup (List.mem_of_find?_eq_some hb) ha hsame]

/-- All identifiers in a table are among those given. -/
def NameTable.Within (ids : List String) (table : NameTable) : Prop :=
  ∀ entry ∈ table, entry.2 ∈ ids

namespace NameTable

variable {ids : List String} {table : NameTable} {name id : String}

theorem Within.mono {ids' : List String} (hsub : ids ⊆ ids') (h : table.Within ids) :
    table.Within ids' :=
  fun entry hentry => hsub (h entry hentry)

theorem Within.of_get? (h : table.Within ids) (hid : table.get? name = some id) : id ∈ ids := by
  obtain ⟨entry, hentry, rfl⟩ := Option.map_eq_some_iff.mp hid
  exact h entry (List.mem_of_find?_eq_some hentry)

theorem Within.of_lookup (h : table.Within ids) (hid : table.lookup name = some id) :
    id ∈ ids := by
  unfold lookup at hid
  split at hid
  · rename_i found hfound
    cases hid
    exact h.of_get? hfound
  · exact h.of_get? hid

/-- Qualifying a name by the scopes around it finds nothing but what the table holds. -/
theorem Within.of_lookupScoped (h : table.Within ids) {scopes : List String}
    (hid : FileModel.lookupScoped table name scopes = some id) : id ∈ ids := by
  induction scopes with
  | nil => simp [FileModel.lookupScoped] at hid
  | cons segment rest ih =>
      rw [FileModel.lookupScoped] at hid
      split at hid
      · rename_i found hfound
        cases hid
        exact h.of_lookup hfound
      · exact ih hid

end NameTable

namespace FileModel

/-- The identifiers of the elements of a file. -/
def ids (model : FileModel) : List String :=
  model.elements.map Element.id

theorem mem_lookupOrder {elements : List Element} {e : Element} (h : e ∈ lookupOrder elements) :
    e ∈ elements := by
  rcases List.mem_append.mp h with h | h
  · exact (List.mem_filter.mp h).1
  · exact (List.mem_filter.mp h).1

theorem names_within (model : FileModel) : model.names.Within model.ids := by
  intro entry hentry
  obtain ⟨e, he, hnames⟩ := List.mem_flatMap.mp hentry
  obtain ⟨name, -, rfl⟩ := List.mem_map.mp hnames
  exact List.mem_map_of_mem (mem_lookupOrder he)

theorem canonicalNames_within (model : FileModel) : model.canonicalNames.Within model.ids := by
  intro entry hentry
  obtain ⟨named, hnamed, rfl⟩ := List.mem_map.mp hentry
  exact model.names_within named hnamed

end FileModel

namespace Resolver

variable {resolver : Resolver} {model : FileModel} {ids : List String} {id : String}

/-! ## Targets -/

theorem lookupPath_mem (hcanonical : resolver.canonical.Within ids) {path home : String}
    (h : resolver.lookupPath path home = some id) : id ∈ ids := by
  obtain ⟨candidate, -, hlookup⟩ := List.exists_of_findSome?_eq_some h
  exact hcanonical.of_lookup hlookup

theorem lookupGlobs_mem (hcanonical : resolver.canonical.Within ids) {text : String}
    (h : resolver.lookupGlobs model text = some id) : id ∈ ids := by
  obtain ⟨glob, -, hlookup⟩ := List.exists_of_findSome?_eq_some h
  exact lookupPath_mem hcanonical hlookup

theorem first_eq_some {a : Option String} {b : Unit → Option String}
    (h : first a b = some id) : a = some id ∨ b () = some id := by
  cases a with
  | none => exact .inr h
  | some found => exact .inl h

/-- Each way in which a name is resolved answers with an identifier of the tables. -/
theorem resolveName_mem (hcanonical : resolver.canonical.Within ids)
    (hnames : model.names.Within ids) {scope home text : String}
    (h : resolver.resolveName model scope home text = some id) : id ∈ ids := by
  unfold resolveName at h
  split at h
  · contradiction
  · simp only at h
    split at h
    · exact hnames.of_lookupScoped h
    · split at h
      · exact lookupPath_mem hcanonical h
      · rcases first_eq_some h with h | h
        · exact hnames.of_lookup h
        · rcases first_eq_some h with h | h
          · exact hnames.of_lookupScoped h
          · rcases first_eq_some h with h | h
            · exact lookupPath_mem hcanonical h
            · split at h
              · contradiction
              · exact lookupGlobs_mem hcanonical h

/-- The target of a reference is an identifier of the tables. -/
theorem resolve_mem (hcanonical : resolver.canonical.Within ids)
    (hnames : model.names.Within ids) {reference : Reference}
    (h : resolver.resolve model reference = some id) : id ∈ ids := by
  unfold resolve at h
  split at h
  · exact lookupPath_mem hcanonical h
  · split at h
    · exact resolveName_mem hcanonical hnames h
    · exact resolveName_mem hcanonical hnames h

/-! ## Files -/

theorem register_of_notMem {files : List FileModel}
    (h : ∀ other ∈ files, other.relativePath ≠ model.relativePath) :
    register model files = files ++ [model] := by
  induction files with
  | nil => rfl
  | cons other rest ih =>
      rw [register, if_neg (h other (by simp)), ih fun other hother => h other (by simp [hother])]
      rfl

/-- Files with distinct paths are all kept, in their order. -/
theorem ofFiles_files {files : List FileModel}
    (h : (files.map FileModel.relativePath).Nodup) : (ofFiles files).files = files := by
  have hfold : ∀ later known : List FileModel,
      ((known ++ later).map FileModel.relativePath).Nodup →
      later.foldl (fun known model => register model known) known = known ++ later := by
    intro later
    induction later with
    | nil =>
        intro known _
        rw [List.foldl_nil, List.append_nil]
    | cons model rest ih =>
        intro known hnodup
        have hfresh : ∀ other ∈ known, other.relativePath ≠ model.relativePath := by
          intro other hother heq
          rw [List.map_append] at hnodup
          exact List.disjoint_of_nodup_append hnodup (List.mem_map_of_mem hother) (by simp [heq])
        rw [List.foldl_cons, register_of_notMem hfresh, ih _ (by simpa using hnodup)]
        simp
  exact hfold files [] h

/-- The paths of the crate lead to elements of the files. -/
theorem ofFiles_canonical_within (files : List FileModel) :
    (ofFiles files).canonical.Within (files.flatMap FileModel.ids) := by
  intro entry hentry
  obtain ⟨model, hmodel, hnames⟩ := List.mem_flatMap.mp hentry
  exact List.mem_flatMap.mpr ⟨model, hmodel, model.canonicalNames_within entry hnames⟩

end Resolver

/-! ## Who makes references -/

variable {source : Source} {file : SourceFile} {around : List Node} {forced : Option Visibility}
  {before nodes : List Node} {node root : Node} {kind : Kind} {named : ItemName}
  {notes : List Docs.Note} {visibility : Visibility} {item : Item} {usages : List Usage}
  {declarations : List Declaration} {elements : List Element}

/-- No use of a name is an import. -/
theorem UsageForm.referenceType_ne (form : UsageForm) :
    form.referenceType ≠ .importReference := by
  cases form <;> decide

theorem Usage.type_ne_of_ofItem (h : Usage.ofItem source around kind node = .ok usages) :
    ∀ usage ∈ usages, usage.type ≠ .importReference := by
  intro usage husage
  unfold Usage.ofItem at h
  split at h
  · cases h
    simp at husage
  · simp only [Outcome.bind_eq_ok_iff, Outcome.pure_eq_ok_iff] at h
    obtain ⟨generics, -, found, hfound, rfl⟩ := h
    obtain ⟨entry, hentry, hsome⟩ := List.mem_filterMap.mp husage
    obtain ⟨site, -, hsite⟩ := Outcome.exists_of_mapM_eq_ok hfound entry hentry
    obtain ⟨written, -, hread⟩ := Outcome.map_eq_ok_iff.mp hsite
    rw [id_eq] at hsome
    subst hsome
    simp only at hread
    split at hread
    · contradiction
    · split at hread
      · contradiction
      · cases hread
        exact site.form.referenceType_ne

/-- The uses of an item are those found at its node. -/
theorem Declaration.Takes.usages_eq
    (h : Takes file around forced before node kind named notes visibility item) :
    Usage.ofItem file.source around kind node = .ok item.usages := by
  have hread := h.read_eq
  simp only [Item.read, Outcome.bind_eq_ok_iff, Outcome.pure_eq_ok_iff] at hread
  obtain ⟨inner, -, generics, -, usages, husages, rfl⟩ := hread
  exact husages

/-- None of the items in a file uses a name by importing it. -/
theorem Declaration.Traversal.usage_type_ne
    (h : Traversal file around forced before nodes declarations) :
    ∀ item ∈ itemsAll declarations, ∀ usage ∈ item.usages, usage.type ≠ .importReference := by
  induction h with
  | nil => simp
  | pass _ _ ih => exact ih
  | block _ _ _ _ _ ihInner ihLater =>
      intro item hitem
      rw [itemsAll_append] at hitem
      rcases List.mem_append.mp hitem with hitem | hitem
      · exact ihInner item hitem
      · exact ihLater item hitem
  | leaf htakes _ _ ih =>
      intro item hitem
      rw [itemsAll_cons, itemsAll_nil, List.nil_append] at hitem
      rcases List.mem_cons.mp hitem with rfl | hitem
      · exact Usage.type_ne_of_ofItem htakes.usages_eq
      · exact ih item hitem
  | scope htakes _ _ _ _ ihMembers ihLater =>
      intro item hitem
      rw [itemsAll_cons] at hitem
      rcases List.mem_cons.mp hitem with rfl | hitem
      · exact Usage.type_ne_of_ofItem htakes.usages_eq
      · rcases List.mem_append.mp hitem with hitem | hitem
        · exact ihMembers item hitem
        · exact ihLater item hitem

theorem usage_type_ne_of_elementsOf (h : elementsOf file root = .ok elements) :
    ∀ e ∈ elements, ∀ usage ∈ e.item.usages, usage.type ≠ .importReference := by
  obtain ⟨declarations, hroot, rfl⟩ := Outcome.map_eq_ok_iff.mp h
  intro e he
  rw [Declaration.elements_eq] at he
  obtain ⟨placed, hplaced, rfl⟩ := List.mem_map.mp he
  apply (Declaration.ofRoot_eq_ok_iff.mp hroot).usage_type_ne
  rw [← Declaration.placeAll_items declarations (.start file.path)]
  exact List.mem_map_of_mem hplaced

namespace FileModel

/-- The laws of the model of one file. -/
structure Sound (model : FileModel) : Prop where
  /-- Identifiers carry the path of the file and the position of their element. -/
  id_eq : ∀ i e, model.elements[i]? = some e →
    e.id = ElementId.render ⟨model.relativePath, e.kind.label, e.qualifiedName, i + 1⟩
  /-- The references of imports, and only they, are made by no element. -/
  origin_eq_none_iff : ∀ reference ∈ model.references,
    reference.origin = none ↔ reference.type = .importReference
  /-- The others are made by the element that is their scope. -/
  origin_mem : ∀ reference ∈ model.references, ∀ id, reference.origin = some id →
    ∃ e ∈ model.elements, e.id = id ∧ e.qualifiedName = reference.scope

theorem sound_of_unresolved {path : String} {file : SourceFile} {text : String} {root : Node}
    {model : FileModel} (h : unresolved path file text root = .ok model) : Sound model := by
  simp only [unresolved, Outcome.bind_eq_ok_iff, Outcome.pure_eq_ok_iff,
    Outcome.mapError_eq_ok_iff] at h
  obtain ⟨elements, helements, declarations, -, modulePath, -, rfl⟩ := h
  have htypes := usage_type_ne_of_elementsOf helements
  obtain ⟨forest, -, rfl⟩ := Outcome.map_eq_ok_iff.mp helements
  refine ⟨fun i e hi => Declaration.id_eq_of_getElem? hi, ?_, ?_⟩
  · intro reference hreference
    rcases List.mem_append.mp hreference with hreference | hreference
    · obtain ⟨declaration, -, hreference⟩ := List.mem_flatMap.mp hreference
      obtain ⟨record, -, hreference⟩ := List.mem_flatMap.mp hreference
      obtain ⟨name, -, rfl⟩ := List.mem_map.mp hreference
      simp
    · obtain ⟨e, he, hreference⟩ := List.mem_flatMap.mp hreference
      obtain ⟨usage, husage, rfl⟩ := List.mem_map.mp hreference
      simp [htypes e he usage husage]
  · intro reference hreference id hid
    rcases List.mem_append.mp hreference with hreference | hreference
    · obtain ⟨declaration, -, hreference⟩ := List.mem_flatMap.mp hreference
      obtain ⟨record, -, hreference⟩ := List.mem_flatMap.mp hreference
      obtain ⟨name, -, rfl⟩ := List.mem_map.mp hreference
      contradiction
    · obtain ⟨e, he, hreference⟩ := List.mem_flatMap.mp hreference
      obtain ⟨usage, -, rfl⟩ := List.mem_map.mp hreference
      exact ⟨e, he, Option.some.inj hid, rfl⟩

/-- Resolving the references of a file changes their targets only. -/
theorem Sound.resolveFile {model : FileModel} (h : Sound model) (resolver : Resolver) :
    Sound (resolver.resolveFile model) := by
  refine ⟨h.id_eq, ?_, ?_⟩
  · intro reference hreference
    obtain ⟨old, hold, rfl⟩ := List.mem_map.mp hreference
    exact h.origin_eq_none_iff old hold
  · intro reference hreference id hid
    obtain ⟨old, hold, rfl⟩ := List.mem_map.mp hreference
    exact h.origin_mem old hold id hid

/-- The model of a file is sound and stands under the path of the file. -/
theorem sound_of_build {path : String} {file : SourceFile} {text : String} {root : Node}
    {model : FileModel} (h : build path file text root = .ok model) :
    Sound model ∧ model.relativePath = file.path := by
  obtain ⟨unsettled, hunresolved, rfl⟩ := Outcome.map_eq_ok_iff.mp h
  refine ⟨(sound_of_unresolved hunresolved).resolveFile _, ?_⟩
  simp only [unresolved, Outcome.bind_eq_ok_iff, Outcome.pure_eq_ok_iff,
    Outcome.mapError_eq_ok_iff] at hunresolved
  obtain ⟨elements, -, declarations, -, modulePath, -, rfl⟩ := hunresolved
  rfl

end FileModel

end CrateAtlas
