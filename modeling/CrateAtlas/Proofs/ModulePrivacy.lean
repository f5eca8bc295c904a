import CrateAtlas.Proofs.Enclosure
import Mathlib.Data.List.Perm.Basic

/-!
# Privacy of inline modules

A bare name in a file should not reach into a module of the file that does not enclose it.  It is
looked up qualified by the leading segments of the scope around it, so this holds as long as these
segments spell no other module of the file.  The members of an impl block for a type of another
module are in a scope that does.

Main results:

- Theorem {lit}`StandsIn.exists_of_get?`: under which names an element of a module can be found.
- Theorem {lit}`resolve_bareName_within`: a bare name leads to an element whose module encloses the
  reference.
- Theorem {lit}`resolve_bareName_strays`: the members of an impl block for a type of another module
  reach into that module.
-/

namespace CrateAtlas

open ScopePath

/-! ## Names of elements in tables -/

/-- The table of elements under paths, in order. -/
def entries (named : List (String × Element)) : NameTable :=
  named.flatMap fun entry => (lookupNames entry.2).map fun name =>
    (join [entry.1, name], entry.2.id)

theorem FileModel.names_eq (model : FileModel) :
    model.names = entries ((lookupOrder model.elements).map fun e => ("", e)) := by
  simp only [names, entries, List.flatMap_map, join_nil_left]

theorem Resolver.canonical_eq (files : List FileModel) :
    (ofFiles files).canonical = entries (files.flatMap fun file =>
      (lookupOrder file.elements).map fun e => (file.modulePath, e)) := by
  simp only [ofFiles, entries, List.flatMap_assoc, List.flatMap_map]
  refine List.flatMap_congr fun file _ => ?_
  simp only [FileModel.canonicalNames, FileModel.names, List.map_flatMap, List.map_map]
  rfl

theorem lookupOrder_perm (elements : List Element) : (lookupOrder elements).Perm elements := by
  have hperm := List.filter_append_perm (fun e : Element => decide (e.kind ≠ .impl)) elements
  simpa [lookupOrder] using hperm

/-- Elements other than impl blocks stay before those that come after them. -/
theorem sublist_lookupOrder {elements : List Element} {m e : Element} (hm : m.kind ≠ .impl)
    (h : [m, e].Sublist elements) : [m, e].Sublist (lookupOrder elements) := by
  by_cases he : e.kind = .impl
  · refine (List.singleton_sublist.mpr ?_).append (List.singleton_sublist.mpr ?_)
    · exact List.mem_filter.mpr ⟨h.subset (by simp), by simpa using hm⟩
    · exact List.mem_filter.mpr ⟨h.subset (by simp), by simpa using he⟩
  · have hfilter := h.filter fun e : Element => decide (e.kind ≠ .impl)
    rw [List.filter_cons_of_pos (by simpa using hm), List.filter_cons_of_pos (by simpa using he),
      List.filter_nil] at hfilter
    exact hfilter.trans (List.sublist_append_left _ _)

theorem mem_lookupNames {e : Element} {name : String} :
    name ∈ lookupNames e ↔
      name = e.qualifiedName ∨ name = withoutSegmentGenerics e.qualifiedName := by
  unfold lookupNames
  simp only
  split
  · rename_i hsame
    rw [hsame]
    simp
  · simp

/-- The first entry of a name counts. -/
theorem NameTable.exists_of_get?_append {front back : NameTable} {key id : String}
    (hkey : ∃ entry ∈ front, entry.1 = key) (h : NameTable.get? (front ++ back) key = some id) :
    ∃ entry ∈ front, entry.2 = id := by
  have hfound : (front.find? fun entry => entry.1 == key).isSome := by
    obtain ⟨entry, hentry, hname⟩ := hkey
    exact List.find?_isSome.mpr ⟨entry, hentry, by simpa using hname⟩
  obtain ⟨entry, hentry⟩ := Option.isSome_iff_exists.mp hfound
  rw [get?, List.find?_append, hentry] at h
  exact ⟨entry, List.mem_of_find?_eq_some hentry, by simpa using h⟩

section Tables

variable {named : List (String × Element)} {path key : String} {m t : Element}

/-- An element is found under its own names. -/
theorem exists_lookupName_of_get? (hnodup : (named.map fun entry => entry.2.id).Nodup)
    (ht : (path, t) ∈ named) (h : (entries named).get? key = some t.id) :
    ∃ name ∈ lookupNames t, key = join [path, name] := by
  obtain ⟨entry, hentry, hid⟩ := Option.map_eq_some_iff.mp h
  have hkey : entry.1 = key := by simpa using List.find?_some hentry
  obtain ⟨⟨path', t'⟩, hmem, hnames⟩ := List.mem_flatMap.mp (List.mem_of_find?_eq_some hentry)
  obtain ⟨name, hname, rfl⟩ := List.mem_map.mp hnames
  obtain ⟨rfl, rfl⟩ := Prod.mk.inj (List.inj_on_of_nodup_map hnodup hmem ht hid)
  exact ⟨name, hname, hkey.symm⟩

/-- It is not found under a name of an element before it. -/
theorem ne_of_get?_of_sublist (hnodup : (named.map fun entry => entry.2.id).Nodup)
    (hsub : [(path, m), (path, t)].Sublist named) (h : (entries named).get? key = some t.id)
    {name : String} (hname : name ∈ lookupNames m) : key ≠ join [path, name] := by
  rintro rfl
  obtain ⟨front, back, rfl, hm, ht⟩ := List.cons_sublist_iff.mp hsub
  have hentries : entries (front ++ back) = entries front ++ entries back := List.flatMap_append
  have hkey : (join [path, name], m.id) ∈ entries front :=
    List.mem_flatMap.mpr ⟨_, hm, List.mem_map.mpr ⟨name, hname, rfl⟩⟩
  rw [hentries] at h
  obtain ⟨entry, hentry, hid⟩ := NameTable.exists_of_get?_append ⟨_, hkey, rfl⟩ h
  obtain ⟨other, hother, hnames⟩ := List.mem_flatMap.mp hentry
  obtain ⟨otherName, -, rfl⟩ := List.mem_map.mp hnames
  rw [List.map_append] at hnodup
  exact List.disjoint_of_nodup_append hnodup (List.mem_map_of_mem hother)
    (List.mem_map.mpr ⟨_, List.singleton_sublist.mp ht, hid.symm⟩)

end Tables

/-! ## Elements of a module -/

namespace FileModel

variable {model : FileModel} {e m t : Element}

/-- An element stands in a module: it comes after the module, and its scope continues the name of
the module. -/
structure StandsIn (model : FileModel) (m t : Element) : Prop where
  kind : m.kind = .mod
  sublist : [m, t].Sublist model.elements
  scope : ∃ path, t.placement.modulePath = join [m.qualifiedName, path]

/-- The names of an element in a module are the name of the module and something after it, except
that dropping generic arguments may leave the module alone. -/
theorem StandsIn.lookupName_cases (hin : model.StandsIn m t) (hplain : model.Plain)
    (laws : ScopeLaws model.elements) {name : String} (hname : name ∈ lookupNames t) :
    name = m.qualifiedName ∨ ∃ rest, rest ≠ "" ∧ name = join [m.qualifiedName, rest] := by
  have hm : m ∈ model.elements := hin.sublist.subset (by simp)
  have ht : t ∈ model.elements := hin.sublist.subset (by simp)
  obtain ⟨path, hscope⟩ := hin.scope
  have hqualified : t.qualifiedName = join [m.qualifiedName, join [path, t.name]] := by
    rw [laws.qualifiedName_eq t ht, hscope, join_assoc]
  have hrest : join [path, t.name] ≠ "" := by
    rw [Ne, ← String.toList_inj, toList_join]
    intro hnil
    exact laws.name_ne t ht (by simpa using (joinChars_pair_eq_nil.mp hnil).2)
  rcases mem_lookupNames.mp hname with rfl | rfl
  · exact .inr ⟨_, hrest, hqualified⟩
  · have hstripped : withoutSegmentGenerics t.qualifiedName =
        join [m.qualifiedName, withoutSegmentGenerics (join [path, t.name])] := by
      rw [hqualified, hplain.qualifiedName_eq laws hm hin.kind]
      exact withoutSegmentGenerics_words (hplain.word_of_mem_moduleNames laws hm hin.kind) _
    by_cases hempty : withoutSegmentGenerics (join [path, t.name]) = ""
    · exact .inl (by rw [hstripped, hempty, join_nil_right])
    · exact .inr ⟨_, hempty, hstripped⟩

/-- An element of a module is found under a name that continues the name of the module: the module
comes before it and keeps its own name. -/
theorem StandsIn.exists_of_get? (hin : model.StandsIn m t) (hplain : model.Plain)
    (laws : ScopeLaws model.elements) {named : List (String × Element)} {home key : String}
    (hnodup : (named.map fun entry => entry.2.id).Nodup)
    (hnamed : [(home, m), (home, t)].Sublist named)
    (h : (entries named).get? key = some t.id) :
    ∃ rest, rest ≠ "" ∧ key = join [home, join [m.qualifiedName, rest]] := by
  have ht : (home, t) ∈ named := hnamed.subset (by simp)
  obtain ⟨name, hname, hkey⟩ := exists_lookupName_of_get? hnodup ht h
  rcases hin.lookupName_cases hplain laws hname with rfl | ⟨rest, hrest, rfl⟩
  · exact absurd hkey
      (ne_of_get?_of_sublist hnodup hnamed h (mem_lookupNames.mpr (.inl rfl)))
  · exact ⟨rest, hrest, hkey⟩

/-- The order of look-up has the module before the element. -/
theorem StandsIn.sublist_named (hin : model.StandsIn m t) (home : String) :
    [(home, m), (home, t)].Sublist ((lookupOrder model.elements).map fun e => (home, e)) :=
  (sublist_lookupOrder (by rw [hin.kind]; decide) hin.sublist).map fun e => (home, e)

theorem StandsIn.exists_of_names (hin : model.StandsIn m t) (hplain : model.Plain)
    (laws : ScopeLaws model.elements) {key : String} (h : model.names.get? key = some t.id) :
    ∃ rest, rest ≠ "" ∧ key = join [m.qualifiedName, rest] := by
  rw [names_eq] at h
  have hnodup : (((lookupOrder model.elements).map fun e => ("", e)).map
      fun entry : String × Element => entry.2.id).Nodup := by
    rw [List.map_map]
    exact ((lookupOrder_perm model.elements).map Element.id).nodup_iff.mpr laws.ids_nodup
  obtain ⟨rest, hrest, hkey⟩ :=
    hin.exists_of_get? hplain laws hnodup (hin.sublist_named "") h
  exact ⟨rest, hrest, by rw [hkey, join_nil_left]⟩

theorem StandsIn.exists_of_canonical (hin : model.StandsIn m t) (hplain : model.Plain)
    (laws : ScopeLaws model.elements) {files : List FileModel} (hmodel : model ∈ files)
    (hids : (files.flatMap ids).Nodup) {key : String}
    (h : (Resolver.ofFiles files).canonical.get? key = some t.id) :
    ∃ rest, rest ≠ "" ∧ key = join [model.modulePath, join [m.qualifiedName, rest]] := by
  rw [Resolver.canonical_eq] at h
  refine hin.exists_of_get? hplain laws ?_ ?_ h
  · rw [List.map_flatMap]
    have hperm : (files.flatMap fun file => ((lookupOrder file.elements).map fun e =>
        (file.modulePath, e)).map fun entry : String × Element => entry.2.id).Perm
        (files.flatMap ids) := by
      apply List.Perm.flatMap_left
      intro file _
      rw [List.map_map]
      exact (lookupOrder_perm file.elements).map Element.id
    exact hperm.nodup_iff.mpr hids
  · obtain ⟨before, after, rfl⟩ := List.append_of_mem hmodel
    rw [List.flatMap_append, List.flatMap_cons]
    exact ((hin.sublist_named model.modulePath).trans (List.sublist_append_left _ _)).trans
      (List.sublist_append_right _ _)

/-! ## The steps of resolution -/

theorem lookup_cases {table : NameTable} {name id : String} (h : table.lookup name = some id) :
    table.get? name = some id ∨ table.get? (withoutSegmentGenerics name) = some id := by
  unfold NameTable.lookup at h
  split at h
  · rename_i found hfound
    exact .inl (hfound.trans h)
  · exact .inr h

/-- A name is looked up qualified by leading segments of the scope. -/
theorem exists_of_lookupScoped {table : NameTable} {name id : String} {reversed : List String}
    (h : lookupScoped table name reversed = some id) :
    ∃ front segment back, reversed.reverse = front ++ segment :: back ∧
      table.lookup (join (front ++ [segment, name])) = some id := by
  induction reversed with
  | nil => simp [lookupScoped] at h
  | cons segment rest ih =>
      rw [lookupScoped] at h
      split at h
      · rename_i found hfound
        refine ⟨rest.reverse, segment, [], by simp, ?_⟩
        rw [← h, ← hfound]
        simp
      · obtain ⟨front, inner, back, hreversed, hlookup⟩ := ih h
        exact ⟨front, inner, back ++ [segment], by simp [hreversed], hlookup⟩

/-- A word alone is not the name of an element in a module. -/
theorem StandsIn.lookup_word_ne (hin : model.StandsIn m t) (hplain : model.Plain)
    (laws : ScopeLaws model.elements) {text : String} (hword : Word text.toList) :
    model.names.lookup text ≠ some t.id := by
  intro h
  have hsame : withoutSegmentGenerics text = text := by
    rw [← String.toList_inj, toList_withoutSegmentGenerics, hword.withoutGenerics_eq]
  have hget : model.names.get? text = some t.id := by
    rcases lookup_cases h with h | h
    · exact h
    · rwa [hsame] at h
  obtain ⟨rest, hrest, htext⟩ := hin.exists_of_names hplain laws hget
  have hm : m ∈ model.elements := hin.sublist.subset (by simp)
  have hcolon : ':' ∈ text.toList := by
    rw [htext, toList_continued (laws.qualifiedName_ne hm) hrest]
    simp [separator]
  exact hword.colon hcolon

/-- A word that leads to an element of a module through the scopes around the reference is used in
a scope that starts with the name of the module. -/
theorem StandsIn.extends_of_lookupScoped (hin : model.StandsIn m t) (hplain : model.Plain)
    (laws : ScopeLaws model.elements) {scope text : String}
    (hscope : scope.toList.getLast? ≠ some ':') (hword : Word text.toList)
    (h : lookupScoped model.names text (split scope).reverse = some t.id) :
    Extends (withoutSegmentGenerics scope).toList m.qualifiedName.toList := by
  have hm : m ∈ model.elements := hin.sublist.subset (by simp)
  have hne := laws.qualifiedName_ne hm
  obtain ⟨front, segment, back, hsplit, hlookup⟩ := exists_of_lookupScoped h
  rw [List.reverse_reverse] at hsplit
  have hsplitChars : splitChars scope.toList =
      front.map String.toList ++ segment.toList :: back.map String.toList := by
    have hchars := congrArg (List.map String.toList) hsplit
    rw [split, List.map_map] at hchars
    simpa [Function.comp_def] using hchars
  -- The key under which the element was found continues the name of the module.
  have hkey : ∃ rest : List Char,
      joinChars (front.map String.toList ++ [segment.toList, text.toList]) =
          m.qualifiedName.toList ++ separator ++ rest ∨
        withoutSegmentGenericsChars
            (joinChars (front.map String.toList ++ [segment.toList, text.toList])) =
          m.qualifiedName.toList ++ separator ++ rest := by
    have hchars : joinChars (front.map String.toList ++ [segment.toList, text.toList]) =
        (join (front ++ [segment, text])).toList := by
      rw [toList_join, List.map_append]
      rfl
    rw [hchars, ← toList_withoutSegmentGenerics]
    rcases lookup_cases hlookup with hget | hget
    · obtain ⟨rest, hrest, hkey⟩ := hin.exists_of_names hplain laws hget
      exact ⟨rest.toList, .inl (by rw [hkey, toList_continued hne hrest])⟩
    · obtain ⟨rest, hrest, hkey⟩ := hin.exists_of_names hplain laws hget
      exact ⟨rest.toList, .inr (by rw [hkey, toList_continued hne hrest])⟩
  obtain ⟨rest, hkey⟩ := hkey
  have hwords : ∀ w ∈ (model.modulesAround m ++ [m.name]).map String.toList, Word w := by
    intro w hw
    obtain ⟨name, hname, rfl⟩ := List.mem_map.mp hw
    exact hplain.word_of_mem_moduleNames laws hm hin.kind name hname
  have hqualified := congrArg String.toList (hplain.qualifiedName_eq laws hm hin.kind)
  rw [toList_join] at hqualified
  rw [toList_withoutSegmentGenerics, hqualified]
  rw [hqualified] at hkey
  exact extends_of_key hscope hsplitChars hword hwords (by rw [← hqualified]; simpa using hne) hkey

theorem split_of_word {text : String} (hword : Word text.toList) : split text = [text] := by
  have hchars := hword.settles.splitChars_pair hword.ne_nil []
  rw [joinChars_nil_right] at hchars
  rw [split, hchars]
  simp [splitChars, segmentsFrom]

theorem candidates_of_word {text home : String} (hword : Word text.toList)
    (hcrate : text ≠ crateRoot) (hrelative : isRelativeHead text = false) :
    ∀ candidate ∈ candidates text home,
      candidate = join [home, text] ∨ candidate = join [crateRoot, text] := by
  intro candidate hcandidate
  rw [candidates, split_of_word hword] at hcandidate
  simp only [hcrate, hrelative, if_false, Bool.false_eq_true] at hcandidate
  split at hcandidate
  · exact .inl (by simpa using hcandidate)
  · simpa using hcandidate

/-- A word after a path of words has no generic arguments to drop. -/
theorem get?_of_lookup_words {table : NameTable} {names : List String} {text id : String}
    (hnames : ∀ name ∈ names, Word name.toList) (hword : Word text.toList)
    (h : table.lookup (join [join names, text]) = some id) :
    table.get? (join [join names, text]) = some id := by
  have hsame : withoutSegmentGenerics text = text := by
    rw [← String.toList_inj, toList_withoutSegmentGenerics, hword.withoutGenerics_eq]
  rcases lookup_cases h with h | h
  · exact h
  · rwa [withoutSegmentGenerics_words hnames, hsame] at h

theorem word_crateRoot : Word crateRoot.toList :=
  ⟨by decide, by decide, by decide, by decide, by decide⟩

/-- A word that leads to an element of a module as a path of the crate is used in that module. -/
theorem StandsIn.within_of_lookupPath (hin : model.StandsIn m t) (hplain : model.Plain)
    (laws : ScopeLaws model.elements) {files : List FileModel} (hmodel : model ∈ files)
    (hids : (files.flatMap ids).Nodup) (he : e ∈ model.elements) {text : String}
    (hword : Word text.toList) (hcrate : text ≠ crateRoot)
    (hrelative : isRelativeHead text = false)
    (h : (Resolver.ofFiles files).lookupPath text (model.enclosingModule e) = some t.id) :
    within (model.enclosingModule e) (join [model.modulePath, m.qualifiedName]) = true := by
  have hm : m ∈ model.elements := hin.sublist.subset (by simp)
  -- A path of words after which the word leads to the element starts with its module.
  have hextends : ∀ names, (∀ name ∈ names, Word name.toList) → join names ≠ "" →
      (Resolver.ofFiles files).canonical.lookup (join [join names, text]) = some t.id →
      Extends (join names).toList (join [model.modulePath, m.qualifiedName]).toList := by
    intro names hnames hne hlookup
    obtain ⟨rest, hrest, hkey⟩ := hin.exists_of_canonical hplain laws hmodel hids
      (get?_of_lookup_words hnames hword hlookup)
    have hroot : join [model.modulePath, m.qualifiedName] ≠ "" :=
      join_ne_empty hplain.modulePath_ne _
    have htext : text ≠ "" := by simpa using hword.ne_nil
    rw [← join_assoc, ← String.toList_inj, toList_continued hne htext,
      toList_continued hroot hrest] at hkey
    exact extends_of_append_eq hword.colon hkey
  obtain ⟨names, hhome, hnames⟩ := hplain.exists_enclosingModule laws he
  have hwords : ∀ name ∈ crateRoot :: names, Word name.toList := by
    simpa using ⟨word_crateRoot, hnames⟩
  obtain ⟨candidate, hcandidate, hlookup⟩ := List.exists_of_findSome?_eq_some h
  rcases candidates_of_word hword hcrate hrelative candidate hcandidate with rfl | rfl
  · rw [hhome] at hlookup ⊢
    have hne : join (crateRoot :: names) ≠ "" := join_ne_empty (by decide) names
    refine within_of_extends (hextends _ hwords hne hlookup) ?_
    rw [toList_join]
    exact getLast?_joinChars_words (by simpa using hwords)
  · -- The root of the crate is too short to start with a module of the file.
    have hshort := (hextends [crateRoot] (by simpa using word_crateRoot) (by decide)
      (by rwa [join_singleton])).length_le
    obtain ⟨fileNames, hpath, -⟩ := hplain.modulePath_eq
    have hlong := (extends_joinChars (show crateRoot.toList ≠ [] by decide)
      (join fileNames).toList).length_le
    have hprefix : model.modulePath.toList =
        joinChars [crateRoot.toList, (join fileNames).toList] := by
      rw [hpath, join_cons, toList_join]
      rfl
    rw [toList_continued hplain.modulePath_ne (laws.qualifiedName_ne hm), hprefix,
      join_singleton] at hshort
    simp only [List.length_append, separator, List.length_cons, List.length_nil] at hshort
    omega

/-! ## Bare names -/

/-- The scope of an element spells no modules but those around the element: if it starts, read as a
path without generic arguments, with the name of a module, then a module of that name encloses the
element. -/
def SpellsOwners (model : FileModel) (e : Element) : Prop :=
  ∀ m ∈ model.elements, m.kind = .mod →
    Extends (withoutSegmentGenerics e.placement.modulePath).toList m.qualifiedName.toList →
    ∃ owner ∈ model.owners e, owner.kind = .mod ∧ owner.qualifiedName = m.qualifiedName

instance (model : FileModel) (e : Element) : Decidable (model.SpellsOwners e) :=
  inferInstanceAs (Decidable (∀ m ∈ model.elements, m.kind = .mod →
    Extends (withoutSegmentGenerics e.placement.modulePath).toList m.qualifiedName.toList →
    ∃ owner ∈ model.owners e, owner.kind = .mod ∧ owner.qualifiedName = m.qualifiedName))

/-- A bare name leads through the steps of resolution to an element whose module encloses the
reference. -/
theorem within_of_resolveName (hplain : model.Plain) (laws : ScopeLaws model.elements)
    {files : List FileModel} (hmodel : model ∈ files) (hids : (files.flatMap ids).Nodup)
    (he : e ∈ model.elements) (ht : t ∈ model.elements) (hspells : model.SpellsOwners e)
    {text : String} (hword : Word text.toList)
    (hreserved : text ∉ ["Self", "self", "super", "crate"])
    (himported : model.imported? text = none) (hglobs : model.globs = [])
    (h : (Resolver.ofFiles files).resolveName model e.placement.modulePath
      (model.enclosingModule e) text = some t.id) :
    within (model.enclosingModule e) (model.enclosingModule t) = true := by
  simp only [List.mem_cons, List.not_mem_nil, or_false, not_or] at hreserved
  obtain ⟨hself, hselfHead, hsuper, hcrate⟩ := hreserved
  have hrelative : isRelativeHead text = false := by simp [isRelativeHead, hselfHead, hsuper]
  rcases exists_innermost laws t ht with hnone | ⟨m, inner, hkind, hsub, howners, hinner, hscope⟩
  · have hmodules : model.modulesAround t = [] := by
      rw [modulesAround, List.filter_eq_nil_iff.mpr fun owner howner => by
        simpa using hnone owner howner]
      rfl
    rw [enclosingModule_eq, enclosingModule_eq, hmodules]
    exact within_join [model.modulePath] _ (join_ne_empty hplain.modulePath_ne [])
  · have hin : model.StandsIn m t := ⟨hkind, hsub, hscope⟩
    have hm : m ∈ model.elements := hsub.subset (by simp)
    rw [hplain.enclosingModule_of_innermost laws hm howners hkind hinner]
    rw [Resolver.resolveName, split_of_word hword] at h
    simp only [hself, if_false, himported] at h
    rcases Resolver.first_eq_some h with h | h
    · exact absurd h (hin.lookup_word_ne hplain laws hword)
    · rcases Resolver.first_eq_some h with h | h
      · have hscope := hplain.scope_getLast? e he
        have hextends := hin.extends_of_lookupScoped hplain laws hscope hword h
        obtain ⟨owner, howner, hmod, hname⟩ := hspells m hm hkind hextends
        rw [← hname]
        exact hplain.within_of_mem_owners laws he howner hmod
      · rcases Resolver.first_eq_some h with h | h
        · exact hin.within_of_lookupPath hplain laws hmodel hids he hword hcrate hrelative h
        · split at h
          · contradiction
          · simp [Resolver.lookupGlobs, hglobs] at h

theorem scopeLaws_of_build {path : String} {file : SourceFile} {text : String} {root : Node}
    (h : build path file text root = .ok model) : ScopeLaws model.elements := by
  obtain ⟨unsettled, hunresolved, rfl⟩ := Outcome.map_eq_ok_iff.mp h
  simp only [unresolved, Outcome.bind_eq_ok_iff, Outcome.pure_eq_ok_iff,
    Outcome.mapError_eq_ok_iff] at hunresolved
  obtain ⟨elements, helements, declarations, -, modulePath, -, rfl⟩ := hunresolved
  exact elementsOf_scopeLaws helements

end FileModel

open FileModel

/-- A bare name in a file, resolved alone or among other files, leads to an element of the file
only if the module of that element encloses the reference, provided that the scope of the reference
spells no other module. -/
theorem resolve_bareName_within {path : String} {file : SourceFile} {text : String} {root : Node}
    {model : FileModel} (h : build path file text root = .ok model) (hplain : model.Plain)
    {files : List FileModel} (hmodel : model ∈ files) (hids : (files.flatMap ids).Nodup)
    {e t : Element} (he : e ∈ model.elements) (ht : t ∈ model.elements)
    (hspells : model.SpellsOwners e) {reference : Reference}
    (horigin : reference.origin = some e.id) (htype : reference.type ≠ .importReference)
    (hword : Word reference.text.toList)
    (hreserved : reference.text ∉ ["Self", "self", "super", "crate"])
    (himported : model.imported? reference.text = none) (hglobs : model.globs = [])
    (hresolve : (Resolver.ofFiles files).resolve model reference = some t.id) :
    within (model.enclosingModule e) (model.enclosingModule t) = true := by
  have laws := scopeLaws_of_build h
  have helement : model.element? e.id = some e := by
    apply find?_eq_some_of_nodup _ (List.mem_reverse.mpr he)
    rw [List.map_reverse]
    exact List.nodup_reverse.mpr laws.ids_nodup
  rw [Resolver.resolve, if_neg htype, horigin, Option.bind_some, helement] at hresolve
  exact within_of_resolveName hplain laws hmodel hids he ht hspells hword hreserved himported
    hglobs hresolve

/-! ## An impl block for a type of another module -/

namespace Sample

/-- A module with a type and a function, and an impl block for the type outside the module, whose
member calls a function of that name. -/
def strayText : String :=
  "pub mod m \x7b pub struct T; pub fn x() \x7b\x7d \x7d\n" ++
    "impl m::T \x7b pub fn e() \x7b x(); \x7d \x7d\n"

/-- The tree of that text. -/
def strayRoot : Node :=
  node "source_file" "" 0 76
    [node "mod_item" "" 0 41
      [node "visibility_modifier" "" 0 3 [], node "identifier" "name" 8 9 [],
        node "declaration_list" "body" 10 41
          [node "struct_item" "" 12 25
            [node "visibility_modifier" "" 12 15 [], node "type_identifier" "name" 23 24 []],
          node "function_item" "" 26 39
            [node "visibility_modifier" "" 26 29 [], node "identifier" "name" 33 34 [],
              node "parameters" "parameters" 34 36 [], node "block" "body" 37 39 []]]],
    node "impl_item" "" 42 75
      [node "scoped_type_identifier" "type" 47 51
          [node "identifier" "path" 47 48 [], node "type_identifier" "name" 50 51 []],
        node "declaration_list" "body" 52 75
          [node "function_item" "" 54 73
            [node "visibility_modifier" "" 54 57 [], node "identifier" "name" 61 62 [],
              node "parameters" "parameters" 62 64 [],
              node "block" "body" 65 73
                [node "expression_statement" "" 67 71
                  [node "call_expression" "" 67 70
                    [node "identifier" "function" 67 68 [],
                      node "arguments" "arguments" 68 70 []]]]]]]]

/-- The text as the root file of a crate. -/
def strayFile : SourceFile :=
  ⟨strayText.toUTF8.toList, "src/lib.rs", ⟨true, true⟩⟩

/-- A use of the name of the type by an element of the file. -/
def typeUse (e : Element) : Reference where
  origin := some e.id
  type := .typeUsage
  text := "T"
  location := ⟨"src/lib.rs", 1, 1, 34, 36, 34, 36⟩
  scope := e.qualifiedName
  target := none

end Sample

/-- The call in the impl block reaches the function in the module, although the impl block stands
outside: the scope of its members, {lit}`m::T`, spells the module. -/
theorem resolve_bareName_strays :
    ∃ model, build "/p/src/lib.rs" Sample.strayFile Sample.strayText Sample.strayRoot = .ok model ∧
      ∃ e ∈ model.elements, ∃ t ∈ model.elements, ∃ reference ∈ model.references,
        reference.origin = some e.id ∧ reference.type = .functionCall ∧ reference.text = "x" ∧
        model.imported? "x" = none ∧ model.globs = [] ∧ reference.target = some t.id ∧
        within (model.enclosingModule e) (model.enclosingModule t) = false := by
  have h : (build "/p/src/lib.rs" Sample.strayFile Sample.strayText Sample.strayRoot).map
      (fun model => decide (∃ e ∈ model.elements, ∃ t ∈ model.elements,
        ∃ reference ∈ model.references,
          reference.origin = some e.id ∧ reference.type = .functionCall ∧ reference.text = "x" ∧
          model.imported? "x" = none ∧ model.globs = [] ∧ reference.target = some t.id ∧
          within (model.enclosingModule e) (model.enclosingModule t) = false)) = .ok true := by
    decide +kernel
  obtain ⟨model, hmodel, hstrays⟩ := Outcome.map_eq_ok_iff.mp h
  exact ⟨model, hmodel, of_decide_eq_true hstrays⟩

/-- In the same file a name in the module leads to the type of the module. -/
theorem resolve_bareName_within_sample :
    ∃ model, build "/p/src/lib.rs" Sample.strayFile Sample.strayText Sample.strayRoot = .ok model ∧
      ∃ e ∈ model.elements, ∃ t ∈ model.elements,
        (Resolver.ofFiles [model]).resolve model (Sample.typeUse e) = some t.id ∧
        model.enclosingModule t = "crate::m" ∧
        within (model.enclosingModule e) (model.enclosingModule t) = true := by
  have h : (build "/p/src/lib.rs" Sample.strayFile Sample.strayText Sample.strayRoot).map
      (fun model => decide (
        (∀ m ∈ model.elements, m.kind = .mod → Word m.name.toList) ∧
        (∀ m ∈ model.elements, m.kind = .mod → ∀ owner ∈ model.owners m, owner.kind = .mod) ∧
        (∀ e ∈ model.elements, e.placement.modulePath.toList.getLast? ≠ some ':') ∧
        model.modulePath = "crate" ∧ model.imported? "T" = none ∧ model.globs = [] ∧
        ([model].flatMap ids).Nodup ∧
        ∃ e ∈ model.elements, model.SpellsOwners e ∧ ∃ t ∈ model.elements,
          (Resolver.ofFiles [model]).resolve model (Sample.typeUse e) = some t.id ∧
          model.enclosingModule t = "crate::m")) = .ok true := by
    decide +kernel
  obtain ⟨model, hmodel, hfacts⟩ := Outcome.map_eq_ok_iff.mp h
  obtain ⟨hwords, hmods, hcolon, hpath, himported, hglobs, hids, e, he, hspells, t, ht, hresolve,
    henclosing⟩ := of_decide_eq_true hfacts
  have hplain : model.Plain := ⟨hwords, hmods, hcolon, [], by rw [hpath]; decide, by simp⟩
  have htype : ReferenceType.typeUsage ≠ .importReference := by decide
  have hword : Word "T".toList := by decide
  have hreserved : "T" ∉ ["Self", "self", "super", "crate"] := by decide
  exact ⟨model, hmodel, e, he, t, ht, hresolve, henclosing,
    resolve_bareName_within hmodel hplain (List.mem_singleton_self model) hids he ht hspells
      rfl htype hword hreserved himported hglobs hresolve⟩

end CrateAtlas
