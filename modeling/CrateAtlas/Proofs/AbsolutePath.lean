import CrateAtlas.Proofs.TypePriority
import Mathlib.Data.List.Infix

/-!
# Absolute paths

A reference that starts at the root of the crate means the same in every file: what the path denotes
among the paths of the crate, whatever the module that encloses the reference.  Names of the file
come first though, and an impl block is named by its type as it is written.  In a file with an impl
block for {lit}`crate::T`, that path leads to the block.

Main results:

- Theorem {lit}`FileModel.mem_localNames_iff`: the names under which an absolute path is looked up
  in its file.
- Theorem {lit}`FileModel.localTarget?_eq_none_iff`: a file finds an absolute path by itself exactly
  if one of its elements goes by it.
- Theorem {lit}`Resolver.resolve_absolute`: an absolute path leads to the same element everywhere,
  as long as no element of the file goes by it.
- Theorem {lit}`Resolver.resolve_absolute_strays`: an impl block for an absolute path leads the
  references of its file astray.
-/

namespace CrateAtlas

open ScopePath

/-! ## Names that lead nowhere -/

theorem NameTable.get?_eq_none_iff {table : NameTable} {name : String} :
    table.get? name = none ↔ ∀ entry ∈ table, entry.1 ≠ name := by
  simp [get?]

theorem NameTable.lookup_eq_none_iff {table : NameTable} {name : String} :
    table.lookup name = none ↔ ∀ key ∈ spellings name, table.get? key = none := by
  cases hname : table.get? name with
  | none => simp [lookup, spellings, hname]
  | some id => simp [lookup, spellings, hname]

namespace FileModel

variable {model : FileModel} {reference : Reference}

theorem names_get?_eq_none_iff {key : String} :
    model.names.get? key = none ↔ ∀ e ∈ model.elements, key ∉ lookupNames e := by
  rw [NameTable.get?_eq_none_iff]
  constructor
  · intro h e he hkey
    have hentry : (key, e.id) ∈ model.names :=
      List.mem_flatMap.mpr ⟨e, (lookupOrder_perm _).mem_iff.mpr he,
        List.mem_map.mpr ⟨key, hkey, rfl⟩⟩
    exact h _ hentry rfl
  · intro h entry hentry hkey
    obtain ⟨e, he, hnamed⟩ := List.mem_flatMap.mp hentry
    obtain ⟨name, hname, rfl⟩ := List.mem_map.mp hnamed
    exact h e ((lookupOrder_perm _).mem_iff.mp he) (hkey ▸ hname)

theorem lookupScoped_eq_none_iff {table : NameTable} {name : String} {reversed : List String} :
    lookupScoped table name reversed = none ↔
      ∀ qualified ∈ qualifications name reversed, table.lookup qualified = none := by
  induction reversed with
  | nil => simp [lookupScoped, qualifications]
  | cons segment rest ih =>
      rw [lookupScoped, qualifications, List.forall_mem_cons, ← ih]
      cases table.lookup (join ((segment :: rest).reverse ++ [name])) with
      | none => simp
      | some id => simp

/-! ## Absolute paths in a file -/

/-- The qualifications of a name are the name below the beginnings of a scope, the empty one
aside. -/
theorem mem_qualifications_iff {name qualified : String} {reversed : List String} :
    qualified ∈ qualifications name reversed ↔
      ∃ front, front ≠ [] ∧ front <+: reversed.reverse ∧ qualified = join (front ++ [name]) := by
  induction reversed with
  | nil =>
      simp only [qualifications, List.not_mem_nil, List.reverse_nil, List.prefix_nil, false_iff]
      rintro ⟨front, hne, rfl, -⟩
      exact hne rfl
  | cons segment rest ih =>
      rw [qualifications, List.mem_cons, ih, List.reverse_cons]
      constructor
      · rintro (rfl | ⟨front, hne, hfront, rfl⟩)
        · exact ⟨rest.reverse ++ [segment], by simp, List.prefix_rfl, rfl⟩
        · exact ⟨front, hne, hfront.trans (List.prefix_append _ _), rfl⟩
      · rintro ⟨front, hne, hfront, rfl⟩
        rcases List.prefix_concat_iff.mp hfront with rfl | hfront
        · exact .inl rfl
        · exact .inr ⟨front, hne, hfront, rfl⟩

/-- A reference uses an absolute path: its text starts at the root of the crate, and neither the
reference nor its file binds a name for that. -/
structure UsesAbsolute (model : FileModel) (reference : Reference) : Prop where
  type_ne : reference.type ≠ .importReference
  head_eq : (split reference.text).head? = some crateRoot
  unbound : ∀ binding ∈ model.bindings, binding.1 ≠ crateRoot

theorem imported?_eq_none_iff {name : String} :
    model.imported? name = none ↔ ∀ binding ∈ model.bindings, binding.1 ≠ name := by
  simp [imported?]

/-- An absolute path is looked up in its file alone and below the scopes around it. -/
theorem mem_localNames_iff (h : model.UsesAbsolute reference) {name : String} :
    name ∈ model.localNames reference ↔
      ∃ front, front <+: split (model.scopeOf reference) ∧
        name = join (front ++ [reference.text]) := by
  obtain ⟨rest, hsplit⟩ := List.head?_eq_some_iff.mp h.head_eq
  rw [localNames, if_neg h.type_ne, hsplit]
  simp only [imported?_eq_none_iff.mpr h.unbound]
  rw [if_neg (by decide), List.mem_cons, mem_qualifications_iff, List.reverse_reverse]
  constructor
  · rintro (rfl | ⟨front, -, hfront, rfl⟩)
    · exact ⟨[], List.nil_prefix, (join_singleton _).symm⟩
    · exact ⟨front, hfront, rfl⟩
  · rintro ⟨front, hfront, rfl⟩
    cases front with
    | nil => exact .inl (join_singleton _)
    | cons segment later => exact .inr ⟨_, by simp, hfront, rfl⟩

/-- An element goes by the text of a reference: the text names it, alone or below scopes around the
reference, with its generic arguments or without. -/
def GoesBy (model : FileModel) (reference : Reference) (e : Element) : Prop :=
  ∃ front, front <+: split (model.scopeOf reference) ∧
    ∃ key ∈ NameTable.spellings (join (front ++ [reference.text])), key ∈ lookupNames e

instance (model : FileModel) (reference : Reference) (e : Element) :
    Decidable (model.GoesBy reference e) :=
  decidable_of_iff
    (∃ front ∈ (split (model.scopeOf reference)).inits,
      ∃ key ∈ NameTable.spellings (join (front ++ [reference.text])), key ∈ lookupNames e)
    (by simp only [List.mem_inits, GoesBy])

/-- A file finds an absolute path by itself exactly if one of its elements goes by it. -/
theorem localTarget?_eq_none_iff (h : model.UsesAbsolute reference) :
    model.localTarget? reference = none ↔
      ∀ e ∈ model.elements, ¬model.GoesBy reference e := by
  obtain ⟨rest, hsplit⟩ := List.head?_eq_some_iff.mp h.head_eq
  have hnames : model.localTarget? reference = none ↔
      ∀ name ∈ model.localNames reference, model.names.lookup name = none := by
    rw [localTarget?, localNames, if_neg h.type_ne, if_neg h.type_ne, hsplit]
    simp only [imported?_eq_none_iff.mpr h.unbound]
    rw [if_neg (by decide), if_neg (by decide), List.forall_mem_cons, ← lookupScoped_eq_none_iff]
    cases model.names.lookup reference.text with
    | none => simp [Resolver.none_first]
    | some id => simp [Resolver.first]
  simp only [hnames, mem_localNames_iff h, NameTable.lookup_eq_none_iff, names_get?_eq_none_iff]
  constructor
  · rintro hnone e he ⟨front, hfront, key, hkey, hname⟩
    exact hnone _ ⟨front, hfront, rfl⟩ key hkey e he hname
  · rintro hnone name ⟨front, hfront, rfl⟩ key hkey e he hname
    exact hnone e he ⟨front, hfront, key, hkey, hname⟩

/-- What a file finds by itself under an absolute path is an element that goes by it. -/
theorem exists_goesBy (h : model.UsesAbsolute reference) {id : String}
    (htarget : model.localTarget? reference = some id) :
    ∃ t ∈ model.elements, t.id = id ∧ model.GoesBy reference t := by
  obtain ⟨name, hname, hlookup⟩ := exists_localName htarget
  obtain ⟨front, hfront, rfl⟩ := (mem_localNames_iff h).mp hname
  obtain ⟨key, hspelling, hget⟩ := NameTable.exists_of_lookup hlookup
  obtain ⟨t, hid, hanswers⟩ := exists_answers_of_names hget
  obtain ⟨made, hmade, hkey⟩ := hanswers.named
  rw [join_nil_left] at hkey
  exact ⟨t, hanswers.mem, hid, front, hfront, key, hspelling, hkey ▸ hmade⟩

end FileModel

/-! ## Absolute paths in a project -/

namespace Resolver

variable {resolver : Resolver} {model : FileModel} {reference : Reference}

/-- What an absolute path denotes does not depend on the module it is written in. -/
theorem lookupPath_absolute {path : String} (h : (split path).head? = some crateRoot)
    (home home' : String) : resolver.lookupPath path home = resolver.lookupPath path home' := by
  obtain ⟨rest, hsplit⟩ := List.head?_eq_some_iff.mp h
  have hcandidates : ∀ home, candidates path home = [join (crateRoot :: rest)] := by
    intro home
    rw [candidates, hsplit]
    exact if_pos rfl
  rw [lookupPath, lookupPath, hcandidates, hcandidates]

/-- In the crate, an absolute path is looked up as it is written. -/
theorem crateTarget?_absolute (h : model.UsesAbsolute reference) (home : String) :
    resolver.crateTarget? model reference = resolver.lookupPath reference.text home := by
  obtain ⟨rest, hsplit⟩ := List.head?_eq_some_iff.mp h.head_eq
  rw [crateTarget?, if_neg h.type_ne, hsplit]
  simp only [FileModel.imported?_eq_none_iff.mpr h.unbound]
  rw [if_neg (by decide), if_pos (.inl trivial), first_none]
  exact lookupPath_absolute h.head_eq _ _

/-- A reference to an absolute path leads to what the path denotes in the crate, unless an element
of its file goes by the path. -/
theorem resolve_eq_lookupPath (h : model.UsesAbsolute reference)
    (hnone : ∀ e ∈ model.elements, ¬model.GoesBy reference e) (home : String) :
    resolver.resolve model reference = resolver.lookupPath reference.text home := by
  rw [resolve_eq, (FileModel.localTarget?_eq_none_iff h).mpr hnone, none_first,
    crateTarget?_absolute h home]

/-- If an element of its file goes by an absolute path, a reference leads to such an element. -/
theorem exists_of_goesBy (h : model.UsesAbsolute reference) {e : Element}
    (he : e ∈ model.elements) (hgoes : model.GoesBy reference e) :
    ∃ t ∈ model.elements, resolver.resolve model reference = some t.id ∧
      model.GoesBy reference t := by
  cases htarget : model.localTarget? reference with
  | none => exact absurd hgoes ((FileModel.localTarget?_eq_none_iff h).mp htarget e he)
  | some id =>
      obtain ⟨t, ht, rfl, hgoes'⟩ := FileModel.exists_goesBy h htarget
      exact ⟨t, ht, resolve_of_localTarget? htarget resolver, hgoes'⟩

/-- Two references with the same absolute path lead to the same element, wherever they stand in the
files of a project: to what the path denotes among the paths of the crate.  Where an element of the
file goes by the path, a reference leads to such an element instead. -/
theorem resolve_absolute (files : List FileModel) {user user' : FileModel}
    {reference reference' : Reference} (h : user.UsesAbsolute reference)
    (h' : user'.UsesAbsolute reference') (htext : reference.text = reference'.text) :
    ((∀ e ∈ user.elements, ¬user.GoesBy reference e) →
        (∀ e ∈ user'.elements, ¬user'.GoesBy reference' e) →
          (ofFiles files).resolve user reference = (ofFiles files).resolve user' reference' ∧
            ∀ home, (ofFiles files).resolve user reference =
              (ofFiles files).lookupPath reference.text home) ∧
      ∀ e ∈ user.elements, user.GoesBy reference e →
        ∃ t ∈ user.elements, (ofFiles files).resolve user reference = some t.id ∧
          user.GoesBy reference t := by
  refine ⟨fun hnone hnone' => ⟨?_, resolve_eq_lookupPath h hnone⟩,
    fun e he hgoes => exists_of_goesBy h he hgoes⟩
  rw [resolve_eq_lookupPath h hnone user.modulePath,
    resolve_eq_lookupPath h' hnone' user.modulePath, htext]

end Resolver

/-! ## Two files and an impl block for a path -/

namespace Sample

/-- A type and a function beside it. -/
def declaredText : String :=
  "pub struct T;\npub fn f() \x7b\x7d\n"

/-- The tree of that text. -/
def declaredRoot : Node :=
  node "source_file" "" 0 28
    [node "struct_item" "" 0 13
      [node "visibility_modifier" "" 0 3 [], node "type_identifier" "name" 11 12 []],
    node "function_item" "" 14 27
      [node "visibility_modifier" "" 14 17 [], node "identifier" "name" 21 22 [],
        node "parameters" "parameters" 22 24 [], node "block" "body" 25 27 []]]

/-- The text as the file at a path. -/
def declaredFile (path : String) : SourceFile :=
  ⟨declaredText.toUTF8.toList, path, ⟨true, true⟩⟩

/-- An impl block whose type is written as an absolute path. -/
def blockText : String :=
  "impl crate::T \x7b pub fn g() \x7b\x7d \x7d\n"

/-- The tree of that text. -/
def blockRoot : Node :=
  node "source_file" "" 0 32
    [node "impl_item" "" 0 31
      [node "scoped_type_identifier" "type" 5 13
          [node "crate" "path" 5 10 [], node "type_identifier" "name" 12 13 []],
        node "declaration_list" "body" 14 31
          [node "function_item" "" 16 29
            [node "visibility_modifier" "" 16 19 [], node "identifier" "name" 23 24 [],
              node "parameters" "parameters" 24 26 [], node "block" "body" 27 29 []]]]]

/-- The text as a file of the crate. -/
def blockFile : SourceFile :=
  ⟨blockText.toUTF8.toList, "src/a.rs", ⟨true, true⟩⟩

/-- A use of the absolute path of the type by an element. -/
def pathUse (e : Element) : Reference :=
  { typeUse e with text := "crate::T" }

theorem pathUse_usesAbsolute {model : FileModel} (e : Element) (h : model.bindings = []) :
    model.UsesAbsolute (pathUse e) := by
  have hhead : (split "crate::T").head? = some crateRoot := by decide +kernel
  have htype : ReferenceType.typeUsage ≠ .importReference := by decide
  exact ⟨htype, hhead, by simp [h]⟩

end Sample

namespace Resolver

/-- In the file with the impl block, the path of the type leads to the block, and elsewhere to the
type. -/
theorem resolve_absolute_strays :
    ∃ user user',
      FileModel.build "/p/src/lib.rs" (Sample.declaredFile "src/lib.rs") Sample.declaredText
          Sample.declaredRoot = .ok user ∧
        FileModel.build "/p/src/a.rs" Sample.blockFile Sample.blockText Sample.blockRoot =
          .ok user' ∧
        ∃ e ∈ user.elements, ∃ e' ∈ user'.elements,
          user.bindings = [] ∧ user'.bindings = [] ∧
          (ofFiles [user, user']).resolve user (Sample.pathUse e) =
            (ofFiles [user, user']).lookupPath "crate::T" "crate" ∧
          (ofFiles [user, user']).resolve user' (Sample.pathUse e') ≠
            (ofFiles [user, user']).resolve user (Sample.pathUse e) := by
  have h : (FileModel.build "/p/src/lib.rs" (Sample.declaredFile "src/lib.rs")
      Sample.declaredText Sample.declaredRoot).bind (fun user =>
        (FileModel.build "/p/src/a.rs" Sample.blockFile Sample.blockText Sample.blockRoot).map
          fun user' => decide (∃ e ∈ user.elements, ∃ e' ∈ user'.elements,
            user.bindings = [] ∧ user'.bindings = [] ∧
            (ofFiles [user, user']).resolve user (Sample.pathUse e) =
              (ofFiles [user, user']).lookupPath "crate::T" "crate" ∧
            (ofFiles [user, user']).resolve user' (Sample.pathUse e') ≠
              (ofFiles [user, user']).resolve user (Sample.pathUse e))) = .ok true := by
    decide +kernel
  obtain ⟨user, huser, h⟩ := Outcome.bind_eq_ok_iff.mp h
  obtain ⟨user', huser', hstrays⟩ := Outcome.map_eq_ok_iff.mp h
  exact ⟨user, user', huser, huser', of_decide_eq_true hstrays⟩

/-- Two files with a type {lit}`T` of their own agree that the path leads to the one in the root
file, and the file with the impl block takes the block. -/
theorem resolve_absolute_sample :
    ∃ user user' block,
      FileModel.build "/p/src/lib.rs" (Sample.declaredFile "src/lib.rs") Sample.declaredText
          Sample.declaredRoot = .ok user ∧
        FileModel.build "/p/src/b.rs" (Sample.declaredFile "src/b.rs") Sample.declaredText
          Sample.declaredRoot = .ok user' ∧
        FileModel.build "/p/src/a.rs" Sample.blockFile Sample.blockText Sample.blockRoot =
          .ok block ∧
        ∃ t ∈ user.elements, ∃ e' ∈ user'.elements, ∃ b ∈ block.elements,
          (ofFiles [user, user', block]).resolve user (Sample.pathUse t) = some t.id ∧
          (ofFiles [user, user', block]).resolve user' (Sample.pathUse e') = some t.id ∧
          (∀ home, (ofFiles [user, user', block]).lookupPath "crate::T" home = some t.id) ∧
          ∃ t' ∈ block.elements,
            (ofFiles [user, user', block]).resolve block (Sample.pathUse b) = some t'.id ∧
              block.GoesBy (Sample.pathUse b) t' := by
  have h : (FileModel.build "/p/src/lib.rs" (Sample.declaredFile "src/lib.rs")
      Sample.declaredText Sample.declaredRoot).bind (fun user =>
        (FileModel.build "/p/src/b.rs" (Sample.declaredFile "src/b.rs") Sample.declaredText
            Sample.declaredRoot).bind fun user' =>
          (FileModel.build "/p/src/a.rs" Sample.blockFile Sample.blockText Sample.blockRoot).map
            fun block => decide (user.bindings = [] ∧ user'.bindings = [] ∧ block.bindings = [] ∧
              ∃ t ∈ user.elements, ∃ e' ∈ user'.elements, ∃ b ∈ block.elements,
                (ofFiles [user, user', block]).resolve user (Sample.pathUse t) = some t.id ∧
                (∀ e ∈ user.elements, ¬user.GoesBy (Sample.pathUse t) e) ∧
                (∀ e ∈ user'.elements, ¬user'.GoesBy (Sample.pathUse e') e) ∧
                block.GoesBy (Sample.pathUse b) b)) = .ok true := by
    decide +kernel
  obtain ⟨user, huser, h⟩ := Outcome.bind_eq_ok_iff.mp h
  obtain ⟨user', huser', h⟩ := Outcome.bind_eq_ok_iff.mp h
  obtain ⟨block, hblock, hfacts⟩ := Outcome.map_eq_ok_iff.mp h
  obtain ⟨hbindings, hbindings', hbindingsBlock, t, ht, e', he', b, hb, htarget, hnone, hnone',
    hgoes⟩ := of_decide_eq_true hfacts
  have huse : user.UsesAbsolute (Sample.pathUse t) := Sample.pathUse_usesAbsolute t hbindings
  have huse' : user'.UsesAbsolute (Sample.pathUse e') :=
    Sample.pathUse_usesAbsolute e' hbindings'
  have huseBlock : block.UsesAbsolute (Sample.pathUse b) :=
    Sample.pathUse_usesAbsolute b hbindingsBlock
  obtain ⟨hsame, hpath⟩ :=
    (resolve_absolute [user, user', block] huse huse' rfl).1 hnone hnone'
  obtain ⟨t', ht', htarget', hgoes'⟩ :=
    (resolve_absolute [user, user', block] huseBlock huse rfl).2 b hb hgoes
  refine ⟨user, user', block, huser, huser', hblock, t, ht, e', he', b, hb, htarget,
    hsame.symm.trans htarget, ?_, t', ht', htarget', hgoes'⟩
  intro home
  exact (hpath home).symm.trans htarget

end Resolver

end CrateAtlas
