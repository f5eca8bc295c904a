import CrateAtlas.Proofs.Declared
import CrateAtlas.Proofs.Resolution
import CrateAtlas.Proofs.ScopePath

/-!
# Scopes and enclosing modules

The scope of an element is written as a path, with one segment for each element around it.  The
same elements are found by going from parent to parent.  This file ties the two together, and reads
the enclosing module of an element off its scope.

Main results:

- Theorem {lit}`elementsOf_scopeLaws`: how the scope of an element continues that of its parent.
- Theorem {lit}`FileModel.owners_eq_cons`: the owners of an element are its parent and the owners
  of its parent.
- Theorem {lit}`FileModel.exists_innermost`: an element in a module has a name that continues the
  name of the module.
-/

namespace CrateAtlas

/-! ## Joining -/

namespace ScopePath

theorem toList_join (segments : List String) :
    (join segments).toList = joinChars (segments.map String.toList) := by
  rw [join, String.toList_ofList]

theorem join_append (front back : List String) :
    join (front ++ back) = join [join front, join back] := by
  rw [← String.toList_inj, toList_join, toList_join, List.map_append, joinChars_append]
  simp [toList_join]

theorem join_cons (first : String) (rest : List String) :
    join (first :: rest) = join [first, join rest] := by
  rw [← String.toList_inj, toList_join, toList_join, List.map_cons, joinChars_cons]
  simp [toList_join]

theorem join_ne_empty {first : String} (h : first ≠ "") (rest : List String) :
    join (first :: rest) ≠ "" := by
  rw [Ne, ← String.toList_inj, toList_join, List.map_cons, joinChars_cons]
  intro hnil
  exact h (by simpa using (joinChars_pair_eq_nil.mp hnil).1)

theorem join_singleton (segment : String) : join [segment] = segment := by
  rw [← String.toList_inj, toList_join, List.map_singleton, joinChars_singleton]

theorem join_assoc (a b c : String) : join [join [a, b], c] = join [a, join [b, c]] := by
  have hleft := join_append [a, b] [c]
  have hright := join_append [a] [b, c]
  rw [join_singleton] at hleft hright
  rw [← hleft, ← hright]
  rfl

theorem join_nil_left (b : String) : join ["", b] = b := by
  rw [← String.toList_inj, toList_join]
  exact joinChars_nil_left b.toList

theorem join_nil_right (a : String) : join [a, ""] = a := by
  rw [← String.toList_inj, toList_join]
  exact joinChars_nil_right a.toList

theorem toList_continued {root rest : String} (hroot : root ≠ "") (hrest : rest ≠ "") :
    (join [root, rest]).toList = root.toList ++ separator ++ rest.toList := by
  rw [toList_join]
  exact joinChars_pair (by simpa using hroot) (by simpa using hrest)

theorem toList_withoutSegmentGenerics (path : String) :
    (withoutSegmentGenerics path).toList = withoutSegmentGenericsChars path.toList := by
  rw [withoutSegmentGenerics, String.toList_ofList]

/-- Leading words are kept when generic arguments are dropped. -/
theorem withoutSegmentGenerics_words {names : List String}
    (hnames : ∀ name ∈ names, Word name.toList) (path : String) :
    withoutSegmentGenerics (join [join names, path]) =
      join [join names, withoutSegmentGenerics path] := by
  have hwords : ∀ w ∈ names.map String.toList, Word w := by
    intro w hw
    obtain ⟨name, hname, rfl⟩ := List.mem_map.mp hw
    exact hnames name hname
  rw [← String.toList_inj, toList_withoutSegmentGenerics, toList_join, toList_join]
  simp only [List.map_cons, List.map_nil, toList_join, toList_withoutSegmentGenerics]
  exact withoutGenerics_words hwords path.toList

/-- A path continues the path of its first segments. -/
theorem within_join (front back : List String) (hfront : join front ≠ "") :
    within (join (front ++ back)) (join front) = true := by
  have hne : (join front).toList ≠ [] := by simpa using hfront
  rw [join_append, within, Bool.or_eq_true, beq_iff_eq, ← String.toList_inj, toList_join,
    List.map_cons, List.map_singleton]
  by_cases hback : (join back).toList = []
  · exact .inl (by rw [hback, joinChars_nil_right])
  · right
    rw [joinChars_pair hne hback, List.isPrefixOf_iff_prefix]
    exact List.prefix_append _ _

theorem within_of_extends {path root : String} (h : Extends path.toList root.toList)
    (hpath : path.toList.getLast? ≠ some ':') : within path root = true := by
  rw [within, Bool.or_eq_true, beq_iff_eq, ← String.toList_inj]
  rcases h.cases hpath with heq | ⟨rest, -, heq⟩
  · exact .inl heq
  · right
    rw [heq, List.isPrefixOf_iff_prefix]
    exact List.prefix_append _ _

end ScopePath

/-! ## Names of declarations -/

/-- Only impl blocks add another segment than their name to the scope. -/
theorem ItemName.segment_eq_of_ofNode {source : Source} {kind : Kind} {node : Node}
    {named : ItemName} (hkind : kind ≠ .impl) (h : ofNode source kind node = .ok (some named)) :
    named.segment = named.name := by
  unfold ofNode at h
  rw [if_neg hkind] at h
  split at h
  · cases h
  · obtain ⟨found, hfound, h⟩ := Outcome.bind_eq_ok_iff.mp h
    obtain ⟨rfl, -⟩ := Option.filter_eq_some_iff.mp (Outcome.pure_eq_ok_iff.mp h)
    obtain ⟨name, -, hnamed⟩ := Outcome.map_eq_ok_iff.mp hfound
    cases hnamed
    rfl

namespace Declaration

/-- Declarations with names, of which only impl blocks add another segment to the scope. -/
inductive Labelled : List Declaration → Prop where
  | nil : Labelled []
  | cons {item segment members rest} :
      item.name ≠ "" → (item.kind ≠ .impl → segment = item.name) → Labelled members →
      Labelled rest → Labelled (mk item segment members :: rest)

theorem Labelled.append {xs ys : List Declaration} (hx : Labelled xs) (hy : Labelled ys) :
    Labelled (xs ++ ys) := by
  induction hx with
  | nil => exact hy
  | cons hname hsegment hmembers _ _ ih => exact .cons hname hsegment hmembers ih

/-- A declaration that is read is labelled like this. -/
theorem Takes.label {file : SourceFile} {around before : List Node} {forced : Option Visibility}
    {node : Node} {kind : Kind} {named : ItemName} {notes : List Docs.Note}
    {visibility : Visibility} {item : Item}
    (h : Takes file around forced before node kind named notes visibility item) :
    item.name ≠ "" ∧ (item.kind ≠ .impl → named.segment = item.name) := by
  obtain ⟨hkind, hname, -⟩ := h.kind_item
  rw [hkind, hname]
  exact ⟨ItemName.name_ne_of_ofNode h.name_eq,
    fun himpl => ItemName.segment_eq_of_ofNode himpl h.name_eq⟩

theorem Traversal.labelled {file : SourceFile} {around : List Node} {forced : Option Visibility}
    {before nodes : List Node} {declarations : List Declaration}
    (h : Traversal file around forced before nodes declarations) : Labelled declarations := by
  induction h with
  | nil => exact .nil
  | pass _ _ ih => exact ih
  | block _ _ _ _ _ ihInner ihLater => exact ihInner.append ihLater
  | leaf htakes _ _ ih =>
      exact .cons htakes.label.1 htakes.label.2 .nil ih
  | scope htakes _ _ _ _ ihMembers ihLater =>
      exact .cons htakes.label.1 htakes.label.2 ihMembers ihLater

end Declaration

/-! ## Scopes -/

/-- The scope of an element continues that of its parent by one segment. -/
def Element.Continues (parent e : Element) : Prop :=
  e.placement.parentId = some parent.id ∧
    ∃ segment, e.placement.modulePath = ScopePath.join [parent.placement.modulePath, segment] ∧
      (parent.kind ≠ .impl → segment = parent.name)

/-- How the elements of a file are named. -/
structure ScopeLaws (elements : List Element) : Prop where
  ids_nodup : (elements.map Element.id).Nodup
  name_ne : ∀ e ∈ elements, e.name ≠ ""
  qualifiedName_eq : ∀ e ∈ elements,
    e.qualifiedName = ScopePath.join [e.placement.modulePath, e.name]
  /-- An element has no parent and no scope, or comes after its parent and continues its scope. -/
  parent_cases : ∀ e ∈ elements,
    (e.placement.parentId = none ∧ e.placement.modulePath = "") ∨
      ∃ p, [p, e].Sublist elements ∧ p.Continues e

theorem ScopeLaws.qualifiedName_ne {elements : List Element} (laws : ScopeLaws elements)
    {e : Element} (he : e ∈ elements) : e.qualifiedName ≠ "" := by
  rw [laws.qualifiedName_eq e he, Ne, ← String.toList_inj, ScopePath.toList_join]
  intro hnil
  exact laws.name_ne e he (by simpa using (ScopePath.joinChars_pair_eq_nil.mp hnil).2)

namespace Declaration

/-- Placing declarations names them after the open scopes. -/
theorem placeAll_scopes {declarations : List Declaration} (hlabelled : Labelled declarations)
    (children : String → List String) :
    ∀ h : Hierarchy, ∀ e ∈ (placeAll h declarations).1.map (elementOf children),
      e.name ≠ "" ∧ e.qualifiedName = ScopePath.join [e.placement.modulePath, e.name] ∧
      ((e.placement.parentId = h.parent? ∧ e.placement.modulePath = h.modulePath) ∨
        ∃ p, [p, e].Sublist ((placeAll h declarations).1.map (elementOf children)) ∧
          p.Continues e) := by
  induction hlabelled with
  | nil =>
      intro h e he
      rw [placeAll] at he
      simp at he
  | @cons item segment members rest hname hsegment _ _ ihMembers ihRest =>
      intro h e he
      let inside := (h.place item.kind item.name).enter segment (h.next item.kind item.name).id
      have hframes : (placeAll inside members).2.close.frames = h.frames :=
        frames_close_placeAll h _ _ _ _ members
      rw [placeAll_cons, List.map_cons, List.map_append] at he ⊢
      rcases List.mem_cons.mp he with rfl | he
      · exact ⟨hname, rfl, .inl ⟨rfl, rfl⟩⟩
      · rcases List.mem_append.mp he with he | he
        · obtain ⟨hne, hqualified, ⟨hparent, hpath⟩ | ⟨p, hsub, hp⟩⟩ := ihMembers inside e he
          · refine ⟨hne, hqualified, .inr ⟨elementOf children (item, h.next item.kind item.name),
              ?_, hparent, segment, ?_, hsegment⟩⟩
            · apply List.Sublist.cons_cons
              exact List.singleton_sublist.mpr (List.mem_append_left _ he)
            · rw [hpath]
              show ScopePath.join ((_ :: h.frames).reverse.map Frame.segment) = _
              rw [List.reverse_cons, List.map_append, ScopePath.join_append,
                List.map_singleton, ScopePath.join_singleton]
              rfl
          · exact ⟨hne, hqualified,
              .inr ⟨p, (hsub.trans (List.sublist_append_left _ _)).cons _, hp⟩⟩
        · obtain ⟨hne, hqualified, ⟨hparent, hpath⟩ | ⟨p, hsub, hp⟩⟩ := ihRest _ e he
          · refine ⟨hne, hqualified, .inl ⟨?_, ?_⟩⟩
            · rw [hparent, Hierarchy.parent?_congr hframes]
            · rw [hpath, Hierarchy.modulePath, hframes]
              rfl
          · exact ⟨hne, hqualified,
              .inr ⟨p, (hsub.trans (List.sublist_append_right _ _)).cons _, hp⟩⟩

end Declaration

/-- The elements of a file are named after their scopes. -/
theorem elementsOf_scopeLaws {file : SourceFile} {root : Node} {elements : List Element}
    (h : elementsOf file root = .ok elements) : ScopeLaws elements := by
  obtain ⟨declarations, hroot, rfl⟩ := Outcome.map_eq_ok_iff.mp h
  have hscopes := Declaration.placeAll_scopes (Declaration.ofRoot_eq_ok_iff.mp hroot).labelled
    (Declaration.placeAll (.start file.path) declarations).2.childrenOf (.start file.path)
  exact ⟨Declaration.nodup_ids _ _, fun e he => (hscopes e he).1,
    fun e he => (hscopes e he).2.1, fun e he => (hscopes e he).2.2⟩

/-! ## Owners -/

namespace FileModel

variable {model : FileModel} {elements before after : List Element} {e p m : Element}

/-- The table of identifiers leads from the identifier of an element to the element. -/
theorem element?_eq_some (laws : ScopeLaws model.elements) (he : e ∈ model.elements) :
    model.element? e.id = some e := by
  apply find?_eq_some_of_nodup _ (List.mem_reverse.mpr he)
  rw [List.map_reverse]
  exact List.nodup_reverse.mpr laws.ids_nodup

/-- The parent of an element is found by its identifier. -/
theorem parentOf?_eq_some (laws : ScopeLaws model.elements) (hp : p ∈ model.elements)
    (hparent : e.placement.parentId = some p.id) : model.parentOf? e = some p := by
  rw [parentOf?, hparent, Option.bind_some, element?_eq_some laws hp]

theorem parentOf?_eq_none (h : e.placement.parentId = none) : model.parentOf? e = none := by
  rw [parentOf?, h, Option.bind_none]

/-- An element without a parent has no owners. -/
theorem climb_eq_nil (h : model.parentOf? e = none) : ∀ turns, climb model.parentOf? turns e = []
  | 0 => rfl
  | turns + 1 => by rw [climb, h]

theorem climb_succ {turns : Nat} (h : model.parentOf? e = some p) :
    climb model.parentOf? (turns + 1) e = p :: climb model.parentOf? turns p := by
  rw [climb, h]

/-- What comes before an element in a list comes before it wherever the list is cut at it. -/
theorem mem_before_of_sublist (hnodup : ((before ++ e :: after).map Element.id).Nodup)
    (h : [p, e].Sublist (before ++ e :: after)) : p ∈ before := by
  have hdistinct := hnodup.of_map
  rw [List.nodup_append, List.nodup_cons] at hdistinct
  obtain ⟨left, right, hsplit, hleft, hright⟩ := List.sublist_append_iff.mp h
  cases left with
  | cons x later =>
      obtain rfl : p = x := (List.cons.inj hsplit).1
      exact hleft.subset (by simp)
  | nil =>
      rw [List.nil_append] at hsplit
      subst hsplit
      have htail : [e].Sublist after := by
        cases hright with
        | cons _ hsub => exact (List.sublist_cons_self _ _).trans hsub
        | cons_cons _ hsub => exact hsub
      exact absurd (htail.subset (by simp)) hdistinct.2.1.1

/-- Coming before an element is transitive. -/
theorem sublist_trans (hnodup : (elements.map Element.id).Nodup) (h : [m, p].Sublist elements)
    (h' : [p, e].Sublist elements) : [m, e].Sublist elements := by
  have he : e ∈ elements := h'.subset (by simp)
  obtain ⟨before, after, rfl⟩ := List.append_of_mem he
  obtain ⟨first, second, rfl⟩ := List.append_of_mem (mem_before_of_sublist hnodup h')
  rw [List.append_assoc, List.cons_append] at hnodup h ⊢
  have hm := mem_before_of_sublist hnodup h
  exact (List.singleton_sublist.mpr hm).append (List.singleton_sublist.mpr (by simp))

/-- A climb is over after at most one turn for each element before its start. -/
theorem climb_stable (laws : ScopeLaws model.elements) :
    ∀ turns before e after, model.elements = before ++ e :: after → before.length ≤ turns →
      climb model.parentOf? (turns + 1) e = climb model.parentOf? turns e := by
  intro turns
  induction turns with
  | zero =>
      intro before e after helements hlength
      obtain rfl := List.eq_nil_of_length_eq_zero (Nat.le_zero.mp hlength)
      rcases laws.parent_cases e (helements ▸ by simp) with ⟨hnone, -⟩ | ⟨p, hsub, -⟩
      · rw [climb_eq_nil (parentOf?_eq_none hnone)]
        rfl
      · have hnodup := laws.ids_nodup
        rw [helements] at hnodup hsub
        exact absurd (mem_before_of_sublist hnodup hsub) (by simp)
  | succ turns ih =>
      intro before e after helements hlength
      rcases laws.parent_cases e (helements ▸ by simp) with ⟨hnone, -⟩ | ⟨p, hsub, hp, -⟩
      · rw [climb_eq_nil (parentOf?_eq_none hnone), climb_eq_nil (parentOf?_eq_none hnone)]
      · have hparent := parentOf?_eq_some laws (hsub.subset (by simp)) hp
        have hnodup := laws.ids_nodup
        rw [helements] at hnodup hsub
        obtain ⟨first, second, rfl⟩ := List.append_of_mem (mem_before_of_sublist hnodup hsub)
        rw [climb_succ hparent, climb_succ hparent, ih first p (second ++ e :: after)]
        · rw [helements, List.append_assoc, List.cons_append]
        · rw [List.length_append, List.length_cons] at hlength
          omega

theorem owners_eq_nil (h : e.placement.parentId = none) : model.owners e = [] :=
  climb_eq_nil (parentOf?_eq_none h) _

/-- The owners of an element are its parent and the owners of its parent. -/
theorem owners_eq_cons (laws : ScopeLaws model.elements) (hsub : [p, e].Sublist model.elements)
    (hparent : e.placement.parentId = some p.id) : model.owners e = p :: model.owners p := by
  have hp : p ∈ model.elements := hsub.subset (by simp)
  obtain ⟨before, after, helements⟩ := List.append_of_mem hp
  have hlength : model.elements.length = before.length + after.length + 1 := by
    rw [helements, List.length_append, List.length_cons, Nat.add_assoc]
  rw [owners, owners, hlength, climb_succ (parentOf?_eq_some laws hp hparent),
    climb_stable laws _ before p after helements (Nat.le_add_right _ _)]

/-- Elements are handled from the outside in: each after its parent. -/
theorem scopeInduction {P : Element → Prop} (laws : ScopeLaws model.elements)
    (top : ∀ e ∈ model.elements, e.placement.parentId = none → e.placement.modulePath = "" → P e)
    (inner : ∀ p e, [p, e].Sublist model.elements → p.Continues e →
      model.owners e = p :: model.owners p → P p → P e) :
    ∀ e ∈ model.elements, P e := by
  intro e he
  induction howners : model.owners e generalizing e with
  | nil =>
      rcases laws.parent_cases e he with ⟨hparent, hpath⟩ | ⟨p, hsub, hp⟩
      · exact top e he hparent hpath
      · rw [owners_eq_cons laws hsub hp.1] at howners
        contradiction
  | cons first rest ih =>
      rcases laws.parent_cases e he with ⟨hparent, hpath⟩ | ⟨p, hsub, hp⟩
      · exact top e he hparent hpath
      · have hcons := owners_eq_cons laws hsub hp.1
        rw [hcons, List.cons.injEq] at howners
        exact inner p e hsub hp hcons (ih p (hsub.subset (by simp)) howners.2)

/-- Each owner of an element brings along its own owners. -/
theorem exists_of_mem_owners (laws : ScopeLaws model.elements) :
    ∀ e ∈ model.elements, ∀ m ∈ model.owners e,
      m ∈ model.elements ∧ ∃ inner, model.owners e = inner ++ m :: model.owners m := by
  refine scopeInduction laws ?_ ?_
  · intro e _ hparent _ m hm
    rw [owners_eq_nil hparent] at hm
    simp at hm
  · intro p e hsub _ hcons ih m hm
    rw [hcons] at hm ⊢
    rcases List.mem_cons.mp hm with rfl | hm
    · exact ⟨hsub.subset (by simp), [], rfl⟩
    · obtain ⟨hmem, inner, hinner⟩ := ih m hm
      exact ⟨hmem, p :: inner, by rw [hinner]; rfl⟩

/-- The scope of an element that stands in modules only is made of their names. -/
theorem scope_eq_of_mods (laws : ScopeLaws model.elements) :
    ∀ e ∈ model.elements, (∀ owner ∈ model.owners e, owner.kind = .mod) →
      e.placement.modulePath = ScopePath.join ((model.owners e).reverse.map Element.name) := by
  refine scopeInduction laws ?_ ?_
  · intro e _ hparent hpath _
    rw [owners_eq_nil hparent, hpath]
    rfl
  · intro p e _ hp hcons ih hmods
    rw [hcons] at hmods ⊢
    obtain ⟨-, segment, hpath, hsegment⟩ := hp
    have hkind : p.kind = .mod := hmods p (by simp)
    have hscope := ih fun owner howner => hmods owner (by simp [howner])
    rw [hpath, hsegment (by rw [hkind]; decide), hscope, List.reverse_cons, List.map_append,
      ScopePath.join_append, List.map_singleton, ScopePath.join_singleton]

/-- An element stands in no module, or in an innermost one; then its scope continues the name of
that module. -/
theorem exists_innermost (laws : ScopeLaws model.elements) :
    ∀ e ∈ model.elements, (∀ owner ∈ model.owners e, owner.kind ≠ .mod) ∨
      ∃ m inner, m.kind = .mod ∧ [m, e].Sublist model.elements ∧
        model.owners e = inner ++ m :: model.owners m ∧
        (∀ owner ∈ inner, owner.kind ≠ .mod) ∧
        ∃ path, e.placement.modulePath = ScopePath.join [m.qualifiedName, path] := by
  refine scopeInduction laws ?_ ?_
  · intro e _ hparent _
    rw [owners_eq_nil hparent]
    exact .inl (by simp)
  · intro p e hsub hp hcons ih
    obtain ⟨-, segment, hpath, hsegment⟩ := hp
    rw [hcons]
    by_cases hkind : p.kind = .mod
    · refine .inr ⟨p, [], hkind, hsub, rfl, by simp, "", ?_⟩
      rw [hpath, hsegment (by rw [hkind]; decide),
        ← laws.qualifiedName_eq p (hsub.subset (by simp)), ScopePath.join_nil_right]
    · rcases ih with hnone | ⟨m, inner, hm, hmsub, howners, hinner, path, hpathP⟩
      · refine .inl fun owner howner => ?_
        rcases List.mem_cons.mp howner with rfl | howner
        · exact hkind
        · exact hnone owner howner
      · refine .inr ⟨m, p :: inner, hm, ?_, by rw [howners]; rfl, ?_,
          ScopePath.join [path, segment], ?_⟩
        · exact sublist_trans laws.ids_nodup hmsub hsub
        · intro owner howner
          rcases List.mem_cons.mp howner with rfl | howner
          · exact hkind
          · exact hinner owner howner
        · rw [hpath, hpathP, ScopePath.join_assoc]

/-! ## Modules -/

/-- A file whose modules are named and nested as the language has it: their names are words, they
stand in modules only, no scope ends in a colon, and the file itself is a module of such a name. -/
structure Plain (model : FileModel) : Prop where
  word_of_mod : ∀ m ∈ model.elements, m.kind = .mod → ScopePath.Word m.name.toList
  mod_of_owner : ∀ m ∈ model.elements, m.kind = .mod →
    ∀ owner ∈ model.owners m, owner.kind = .mod
  scope_getLast? : ∀ e ∈ model.elements, e.placement.modulePath.toList.getLast? ≠ some ':'
  modulePath_eq : ∃ names, model.modulePath = ScopePath.join (ScopePath.crateRoot :: names) ∧
    ∀ name ∈ names, ScopePath.Word name.toList

/-- The names of the modules around an element, from the outside in. -/
def modulesAround (model : FileModel) (e : Element) : List String :=
  ((model.owners e).filter fun owner => owner.kind = .mod).reverse.map Element.name

theorem enclosingModule_eq (model : FileModel) (e : Element) :
    model.enclosingModule e = ScopePath.join (model.modulePath :: model.modulesAround e) :=
  rfl

/-- The modules around an element are those around an owner, the owner, and those in between. -/
theorem modulesAround_eq {inner : List Element}
    (howners : model.owners e = inner ++ m :: model.owners m) (hkind : m.kind = .mod) :
    model.modulesAround e = (model.modulesAround m ++ [m.name]) ++
      (inner.filter fun owner => owner.kind = .mod).reverse.map Element.name := by
  rw [modulesAround, howners, List.filter_append, List.filter_cons_of_pos (by simpa using hkind),
    List.reverse_append, List.reverse_cons, List.map_append, List.map_append]
  rfl

theorem Plain.modulePath_ne (hplain : model.Plain) : model.modulePath ≠ "" := by
  obtain ⟨names, hpath, -⟩ := hplain.modulePath_eq
  rw [hpath]
  exact ScopePath.join_ne_empty (by decide) names

/-- The names of the modules around an element are words. -/
theorem Plain.word_of_mem_modulesAround (hplain : model.Plain) (laws : ScopeLaws model.elements)
    (he : e ∈ model.elements) :
    ∀ name ∈ model.modulesAround e, ScopePath.Word name.toList := by
  intro name hname
  obtain ⟨m, hm, rfl⟩ := List.mem_map.mp hname
  obtain ⟨howner, hkind⟩ := List.mem_filter.mp (List.mem_reverse.mp hm)
  exact hplain.word_of_mod m (exists_of_mem_owners laws e he m howner).1 (by simpa using hkind)

theorem Plain.word_of_mem_moduleNames (hplain : model.Plain) (laws : ScopeLaws model.elements)
    (hm : m ∈ model.elements) (hkind : m.kind = .mod) :
    ∀ name ∈ model.modulesAround m ++ [m.name], ScopePath.Word name.toList := by
  intro name hname
  rcases List.mem_append.mp hname with hname | hname
  · exact hplain.word_of_mem_modulesAround laws hm name hname
  · obtain rfl : name = m.name := by simpa using hname
    exact hplain.word_of_mod m hm hkind

/-- The qualified name of a module is made of the names of the modules around it and its own. -/
theorem Plain.qualifiedName_eq (hplain : model.Plain) (laws : ScopeLaws model.elements)
    (hm : m ∈ model.elements) (hkind : m.kind = .mod) :
    m.qualifiedName = ScopePath.join (model.modulesAround m ++ [m.name]) := by
  have hmods := hplain.mod_of_owner m hm hkind
  have hall : ((model.owners m).filter fun owner => owner.kind = .mod) = model.owners m :=
    List.filter_eq_self.mpr fun owner howner => by simpa using hmods owner howner
  rw [laws.qualifiedName_eq m hm, scope_eq_of_mods laws m hm hmods, modulesAround, hall,
    ScopePath.join_append, ScopePath.join_singleton]

/-- The enclosing module of an element is a path of words from the root of the crate. -/
theorem Plain.exists_enclosingModule (hplain : model.Plain) (laws : ScopeLaws model.elements)
    (he : e ∈ model.elements) :
    ∃ names, model.enclosingModule e = ScopePath.join (ScopePath.crateRoot :: names) ∧
      ∀ name ∈ names, ScopePath.Word name.toList := by
  obtain ⟨names, hpath, hnames⟩ := hplain.modulePath_eq
  refine ⟨names ++ model.modulesAround e, ?_, ?_⟩
  · rw [enclosingModule_eq, hpath, ScopePath.join_cons, ← ScopePath.join_append]
    rfl
  · intro name hname
    rcases List.mem_append.mp hname with hname | hname
    · exact hnames name hname
    · exact hplain.word_of_mem_modulesAround laws he name hname

/-- The enclosing module of an element is its innermost module. -/
theorem Plain.enclosingModule_of_innermost (hplain : model.Plain)
    (laws : ScopeLaws model.elements) {inner : List Element} (hm : m ∈ model.elements)
    (howners : model.owners e = inner ++ m :: model.owners m) (hkind : m.kind = .mod)
    (hinner : ∀ owner ∈ inner, owner.kind ≠ .mod) :
    model.enclosingModule e = ScopePath.join [model.modulePath, m.qualifiedName] := by
  have hnone : (inner.filter fun owner => owner.kind = .mod) = [] :=
    List.filter_eq_nil_iff.mpr fun owner howner => by simpa using hinner owner howner
  rw [enclosingModule_eq, modulesAround_eq howners hkind, hnone,
    hplain.qualifiedName_eq laws hm hkind, List.reverse_nil, List.map_nil, List.append_nil,
    ScopePath.join_cons]

/-- An element lies within each module around it. -/
theorem Plain.within_of_mem_owners (hplain : model.Plain) (laws : ScopeLaws model.elements)
    (he : e ∈ model.elements) (hm : m ∈ model.owners e) (hkind : m.kind = .mod) :
    ScopePath.within (model.enclosingModule e)
      (ScopePath.join [model.modulePath, m.qualifiedName]) = true := by
  obtain ⟨hmem, inner, howners⟩ := exists_of_mem_owners laws e he m hm
  rw [enclosingModule_eq, modulesAround_eq howners hkind, hplain.qualifiedName_eq laws hmem hkind,
    ← ScopePath.join_cons, ← List.cons_append]
  exact ScopePath.within_join _ _ (ScopePath.join_ne_empty hplain.modulePath_ne _)

end FileModel

end CrateAtlas
