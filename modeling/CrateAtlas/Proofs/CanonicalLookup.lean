import CrateAtlas.Proofs.AbsolutePath

/-!
# Canonical paths

The crate is looked up by canonical paths: the module of a file, joined with the name of an element
of the file or with that name without generic arguments.  Several elements may go under one path.
Then the first one counts, where files come in the order given and impl blocks come after the other
elements of their file.  A canonical path that is not changed by splitting and joining it leads to
that element from everywhere, as a path of the crate.

Main results:

- Theorem {lit}`find?_lookupOrder_iff`: which element of a file comes first.
- Theorem {lit}`Resolver.canonical_get?_eq_some_iff`: what the table of the crate holds.
- Theorem {lit}`Resolver.canonical_lookup`: the table holds the first element for each key, and
  canonical paths lead to it.
-/

namespace CrateAtlas

open ScopePath

/-! ## Keys of elements -/

/-- An element goes under a key: its path in the crate, or that of its name without generic
arguments. -/
def Element.GoesUnder (e : Element) (home key : String) : Prop :=
  key = join [home, e.qualifiedName] ∨ key = join [home, withoutSegmentGenerics e.qualifiedName]

instance (e : Element) (home key : String) : Decidable (e.GoesUnder home key) :=
  inferInstanceAs (Decidable (_ ∨ _))

theorem Element.goesUnder_iff {e : Element} {home key : String} :
    e.GoesUnder home key ↔ ∃ name ∈ lookupNames e, key = join [home, name] := by
  simp only [GoesUnder, mem_lookupNames, or_and_right, exists_or, exists_eq_left]

/-- The element of a file that comes first among those with a property: impl blocks come last, and
otherwise the order of the source counts. -/
def ComesFirst (holds : Element → Prop) (elements : List Element) (t : Element) : Prop :=
  ∃ front back, elements = front ++ t :: back ∧ holds t ∧
    (∀ e ∈ front, holds e → e.kind = .impl ∧ t.kind ≠ .impl) ∧
    (t.kind = .impl → ∀ e ∈ back, holds e → e.kind = .impl)

/-- The element that counts for a key: the first one that goes under it in the first file with such
an element. -/
def IsFirst (files : List FileModel) (key : String) (t : Element) : Prop :=
  ∃ before file after, files = before ++ file :: after ∧
    (∀ other ∈ before, ∀ e ∈ other.elements, ¬e.GoesUnder other.modulePath key) ∧
    ComesFirst (fun e => e.GoesUnder file.modulePath key) file.elements t

/-! ## The first element of a file -/

/-- The order of look-up brings the element to the front that comes first. -/
theorem find?_lookupOrder_iff {holds : Element → Prop} [DecidablePred holds]
    {elements : List Element} {t : Element} :
    (lookupOrder elements).find? (fun e => decide (holds e)) = some t ↔
      ComesFirst holds elements t := by
  rw [lookupOrder, List.find?_append, List.find?_filter, List.find?_filter,
    Option.or_eq_some_iff, List.find?_eq_some_iff_append, List.find?_eq_none,
    List.find?_eq_some_iff_append]
  simp only [decide_eq_true_eq, Bool.not_eq_true', decide_eq_false_iff_not, not_and]
  -- It is found among the other elements, or there is none and it is found among the impl blocks.
  constructor
  · rintro (⟨⟨hkind, ht⟩, front, back, rfl, hfront⟩ |
      ⟨hnone, ⟨hkind, ht⟩, front, back, rfl, hfront⟩)
    · refine ⟨front, back, rfl, ht, ?_, fun himpl => absurd himpl hkind⟩
      intro e he hholds
      exact ⟨by_contra fun hnot => hfront e he hnot hholds, hkind⟩
    · have himpl : ∀ e ∈ front ++ t :: back, holds e → e.kind = .impl :=
        fun e he hholds => by_contra fun hnot => hnone e he hnot hholds
      refine ⟨front, back, rfl, ht, ?_, ?_⟩
      · intro e he hholds
        exact absurd hholds (hfront e he (himpl e (by simp [he]) hholds))
      · exact fun _ e he hholds => himpl e (by simp [he]) hholds
  · rintro ⟨front, back, rfl, ht, hfront, hback⟩
    by_cases hkind : t.kind = .impl
    · have hnot : ∀ e ∈ front, ¬holds e := fun e he hholds => (hfront e he hholds).2 hkind
      refine .inr ⟨?_, ⟨hkind, ht⟩, front, back, rfl, fun e he _ => hnot e he⟩
      intro e he hother hholds
      rcases List.mem_append.mp he with he | he
      · exact hnot e he hholds
      · rcases List.mem_cons.mp he with rfl | he
        · exact hother hkind
        · exact hother (hback hkind e he hholds)
    · refine .inl ⟨⟨hkind, ht⟩, front, back, rfl, ?_⟩
      exact fun e he hother hholds => hother (hfront e he hholds).1

theorem find?_lookupOrder_eq_none_iff {holds : Element → Prop} [DecidablePred holds]
    {elements : List Element} :
    (lookupOrder elements).find? (fun e => decide (holds e)) = none ↔
      ∀ e ∈ elements, ¬holds e := by
  rw [List.find?_eq_none]
  simp only [(lookupOrder_perm elements).mem_iff, decide_eq_true_eq]

/-! ## The table of the crate -/

/-- The names of an element lead to it from the keys under which it goes. -/
theorem get?_lookupNames (e : Element) (home key : String) :
    NameTable.get? ((lookupNames e).map fun name => (join [home, name], e.id)) key =
      if e.GoesUnder home key then some e.id else none := by
  rw [NameTable.get?]
  cases hfound : ((lookupNames e).map fun name => (join [home, name], e.id)).find?
      fun entry => entry.1 == key with
  | none =>
      rw [if_neg]
      · rfl
      · intro hgoes
        obtain ⟨name, hname, hkey⟩ := Element.goesUnder_iff.mp hgoes
        have hnot := List.find?_eq_none.mp hfound _ (List.mem_map_of_mem hname)
        exact hnot (by simp [hkey])
  | some entry =>
      obtain ⟨name, hname, rfl⟩ := List.mem_map.mp (List.mem_of_find?_eq_some hfound)
      have hkey : join [home, name] = key := by simpa using List.find?_some hfound
      rw [if_pos (Element.goesUnder_iff.mpr ⟨name, hname, hkey.symm⟩)]
      rfl

/-- A key leads to the first element of a list that goes under it. -/
theorem entries_get? (named : List (String × Element)) (key : String) :
    (entries named).get? key =
      (named.find? fun entry => decide (entry.2.GoesUnder entry.1 key)).map fun entry =>
        entry.2.id := by
  induction named with
  | nil => rfl
  | cons entry rest ih =>
      have hcons : (entries (entry :: rest)).get? key =
          (NameTable.get? ((lookupNames entry.2).map fun name =>
            (join [entry.1, name], entry.2.id)) key).or ((entries rest).get? key) := by
        rw [entries, List.flatMap_cons, NameTable.get?, List.find?_append, Option.map_or]
        rfl
      rw [hcons, get?_lookupNames, ih, List.find?_cons]
      by_cases hgoes : entry.2.GoesUnder entry.1 key
      · simp [hgoes]
      · simp [hgoes]

namespace Resolver

variable {files : List FileModel} {key : String}

theorem canonical_get?_eq (files : List FileModel) (key : String) :
    (ofFiles files).canonical.get? key = (files.findSome? fun file =>
      (lookupOrder file.elements).find? fun e => decide (e.GoesUnder file.modulePath key)).map
        Element.id := by
  rw [canonical_eq, entries_get?, List.find?_flatMap, List.map_findSome?, List.map_findSome?]
  congr 1
  funext file
  rw [Function.comp_apply, Function.comp_apply, List.find?_map, Option.map_map]
  rfl

/-- The table of the crate holds the first element for each key. -/
theorem canonical_get?_eq_some_iff {id : String} :
    (ofFiles files).canonical.get? key = some id ↔ ∃ t, IsFirst files key t ∧ t.id = id := by
  simp only [canonical_get?_eq, Option.map_eq_some_iff, List.findSome?_eq_some_iff,
    find?_lookupOrder_iff, find?_lookupOrder_eq_none_iff]
  refine exists_congr fun t => and_congr_left fun _ => ?_
  constructor
  · rintro ⟨before, file, after, hfiles, hfirst, hbefore⟩
    exact ⟨before, file, after, hfiles, hbefore, hfirst⟩
  · rintro ⟨before, file, after, hfiles, hbefore, hfirst⟩
    exact ⟨before, file, after, hfiles, hfirst, hbefore⟩

/-- It holds nothing for the other keys. -/
theorem canonical_get?_eq_none_iff :
    (ofFiles files).canonical.get? key = none ↔
      ∀ file ∈ files, ∀ e ∈ file.elements, ¬e.GoesUnder file.modulePath key := by
  simp only [canonical_get?_eq, Option.map_eq_none_iff, List.findSome?_eq_none_iff,
    find?_lookupOrder_eq_none_iff]

/-! ## Canonical paths -/

/-- The model of a file holds the module that the file stands for. -/
theorem modulePathOf_of_build {path : String} {file : SourceFile} {text : String} {root : Node}
    {model : FileModel} (h : FileModel.build path file text root = .ok model) :
    modulePathOf model.relativePath = .ok model.modulePath := by
  obtain ⟨unsettled, hunresolved, rfl⟩ := Outcome.map_eq_ok_iff.mp h
  simp only [FileModel.unresolved, Outcome.bind_eq_ok_iff, Outcome.pure_eq_ok_iff,
    Outcome.mapError_eq_ok_iff] at hunresolved
  obtain ⟨elements, -, declarations, -, modulePath, hmodulePath, rfl⟩ := hunresolved
  exact hmodulePath

/-- The path of an element of the crate starts at its root. -/
theorem head?_split_of_modulePathOf {file : FileModel} (rest : String)
    (h : modulePathOf file.relativePath = .ok file.modulePath) :
    (split (join [file.modulePath, rest])).head? = some crateRoot := by
  obtain ⟨parts, -, hpath⟩ := Outcome.map_eq_ok_iff.mp h
  have hword := FileModel.word_crateRoot
  have hchars := hword.settles.splitChars_pair hword.ne_nil
    (join [join (dropModuleRoot (dropSourceDirectory parts)), rest]).toList
  rw [← hpath, join_cons crateRoot, join_assoc, split, toList_join]
  simp only [List.map_cons, List.map_nil, hchars, List.head?_cons, String.ofList_toList]

/-- A canonical path that splitting and joining does not change is looked up as it is, from
everywhere. -/
theorem lookupPath_canonical {path : String} (hhead : (split path).head? = some crateRoot)
    (hpath : join (split path) = path) (files : List FileModel) (home : String) :
    (ofFiles files).lookupPath path home = (ofFiles files).canonical.lookup path := by
  obtain ⟨rest, hsplit⟩ := List.head?_eq_some_iff.mp hhead
  have hcandidates : candidates path home = [path] := by
    rw [candidates, hsplit]
    show (if crateRoot = crateRoot then [join (crateRoot :: rest)] else _) = [path]
    rw [if_pos rfl, ← hsplit, hpath]
  rw [lookupPath, hcandidates, List.findSome?_cons]
  cases (ofFiles files).canonical.lookup path <;> rfl

/-- The table of the crate holds the first element for each key and nothing else.  The canonical
path of an element leads to the first element for it from every module, provided that splitting and
joining does not change the path. -/
theorem canonical_lookup (files : List FileModel)
    (hmodules : ∀ file ∈ files, modulePathOf file.relativePath = .ok file.modulePath) :
    (∀ key, (∀ id, (ofFiles files).canonical.get? key = some id ↔
        ∃ t, IsFirst files key t ∧ t.id = id) ∧
      ((ofFiles files).canonical.get? key = none ↔
        ∀ file ∈ files, ∀ e ∈ file.elements, ¬e.GoesUnder file.modulePath key)) ∧
    ∀ file ∈ files, ∀ e ∈ file.elements, ∀ path, path = join [file.modulePath, e.qualifiedName] →
      join (split path) = path →
        (∃ t, IsFirst files path t ∧ ∀ home, (ofFiles files).lookupPath path home = some t.id) ∧
        (IsFirst files path e → ∀ home, (ofFiles files).lookupPath path home = some e.id) := by
  refine ⟨fun key => ⟨fun id => canonical_get?_eq_some_iff, canonical_get?_eq_none_iff⟩, ?_⟩
  intro file hfile e he path hpath hsplit
  have hlookup : ∀ t, IsFirst files path t →
      ∀ home, (ofFiles files).lookupPath path home = some t.id := by
    intro t hfirst home
    have hget := canonical_get?_eq_some_iff.mpr ⟨t, hfirst, rfl⟩
    have hhead : (split path).head? = some crateRoot :=
      hpath ▸ head?_split_of_modulePathOf _ (hmodules file hfile)
    rw [lookupPath_canonical hhead hsplit, NameTable.lookup, hget]
  refine ⟨?_, hlookup e⟩
  have hget : (ofFiles files).canonical.get? path ≠ none := by
    intro hnone
    exact canonical_get?_eq_none_iff.mp hnone file hfile e he (.inl hpath)
  obtain ⟨id, hid⟩ := Option.ne_none_iff_exists'.mp hget
  obtain ⟨t, hfirst, -⟩ := canonical_get?_eq_some_iff.mp hid
  exact ⟨t, hfirst, hlookup t hfirst⟩

/-- Of two roots of a crate that declare a type {lit}`T` the first one counts for the path. -/
theorem canonical_lookup_sample :
    ∃ user user',
      FileModel.build "/p/src/lib.rs" (Sample.declaredFile "src/lib.rs") Sample.declaredText
          Sample.declaredRoot = .ok user ∧
        FileModel.build "/p/src/main.rs" (Sample.declaredFile "src/main.rs") Sample.declaredText
          Sample.declaredRoot = .ok user' ∧
        (∀ file ∈ [user, user'], modulePathOf file.relativePath = .ok file.modulePath) ∧
        ∃ t ∈ user.elements, ∃ t' ∈ user'.elements,
          join ["crate", t.qualifiedName] = "crate::T" ∧
          join ["crate", t'.qualifiedName] = "crate::T" ∧ t.id ≠ t'.id ∧
          ∀ home, (ofFiles [user, user']).lookupPath "crate::T" home = some t.id := by
  have h : (FileModel.build "/p/src/lib.rs" (Sample.declaredFile "src/lib.rs")
      Sample.declaredText Sample.declaredRoot).bind (fun user =>
        (FileModel.build "/p/src/main.rs" (Sample.declaredFile "src/main.rs") Sample.declaredText
          Sample.declaredRoot).map fun user' => decide (
            join (split "crate::T") = "crate::T" ∧
            ∃ t ∈ user.elements, ∃ t' ∈ user'.elements,
              join [user.modulePath, t.qualifiedName] = "crate::T" ∧
              join ["crate", t.qualifiedName] = "crate::T" ∧
              join ["crate", t'.qualifiedName] = "crate::T" ∧ t.id ≠ t'.id ∧
              (ofFiles [user, user']).canonical.get? "crate::T" = some t.id)) = .ok true := by
    decide +kernel
  obtain ⟨user, huser, h⟩ := Outcome.bind_eq_ok_iff.mp h
  obtain ⟨user', huser', hfacts⟩ := Outcome.map_eq_ok_iff.mp h
  obtain ⟨hsplit, t, ht, t', ht', hhome, hpath, hpath', hne, hget⟩ :=
    of_decide_eq_true hfacts
  have hmodules : ∀ file ∈ [user, user'], modulePathOf file.relativePath = .ok file.modulePath := by
    rw [List.forall_mem_cons, List.forall_mem_singleton]
    exact ⟨modulePathOf_of_build huser, modulePathOf_of_build huser'⟩
  obtain ⟨htable, hlookup⟩ := canonical_lookup [user, user'] hmodules
  obtain ⟨⟨first, hfirst, hfound⟩, -⟩ :=
    hlookup user (by simp) t ht "crate::T" hhome.symm hsplit
  have hid := ((htable "crate::T").1 first.id).mpr ⟨first, hfirst, rfl⟩
  rw [hget, Option.some.injEq] at hid
  refine ⟨user, user', huser, huser', hmodules, t, ht, t', ht', hpath, hpath', hne, ?_⟩
  intro home
  rw [hfound home, hid]

end Resolver

end CrateAtlas
