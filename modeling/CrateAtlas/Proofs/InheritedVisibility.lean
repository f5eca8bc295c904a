import CrateAtlas.Namespace
import CrateAtlas.Proofs.ModulePrivacy

/-!
# Inherited visibility

An impl block and the members of a trait impl have no visibility of their own: they are meant to be
seen wherever their owner is.  How far they are seen is taken from the nearest owner that says so,
but it is measured from the module around them.  For members of impl blocks and traits that is the
module around the owner.  For a member of a module it is the owner itself, so that a visibility that
is relative to a module is measured from one module too far in.

Main results:

- Theorem {lit}`Sight.ofElement_of_inherited`: an inherited visibility is that of the parent.
- Theorem {lit}`isAccessibleFrom_of_inherited`: an element with inherited visibility is accessible
  where its parent is, unless the parent is a module and its visibility is relative to where it
  stands.
- Theorem {lit}`not_isAccessibleFrom_of_inherited`: in a private module such an element is not
  accessible from the module around, where its parent is.
-/

namespace CrateAtlas

open FileModel ScopePath

/-! ## Paths -/

namespace ScopePath

theorem lastIndexFrom_of_notMem {x : List Char} (hcolon : ':' ∉ x) :
    ∀ i, Text.lastIndexFrom separator i x = none := by
  induction x with
  | nil => exact fun _ => rfl
  | cons c cs ih =>
      intro i
      have hprefix : ¬separator.isPrefixOf (c :: cs) = true := fun h =>
        hcolon ((List.isPrefixOf_iff_prefix.mp h).subset (by simp [separator]))
      rw [Text.lastIndexFrom, ih fun hmem => hcolon (List.mem_cons_of_mem _ hmem)]
      exact if_neg hprefix

/-- The last separator of a path stands before its last segment. -/
theorem lastIndexFrom_append {x : List Char} (hcolon : ':' ∉ x) (a : List Char) :
    ∀ i, Text.lastIndexFrom separator i (a ++ separator ++ x) = some (i + a.length) := by
  induction a with
  | nil =>
      intro i
      have hprefix : ¬separator.isPrefixOf (':' :: x) = true := fun h =>
        hcolon ((List.cons_prefix_cons.mp (List.isPrefixOf_iff_prefix.mp h)).2.subset (by simp))
      have hsecond : Text.lastIndexFrom separator (i + 1) (':' :: x) = none := by
        rw [Text.lastIndexFrom, lastIndexFrom_of_notMem hcolon]
        exact if_neg hprefix
      show Text.lastIndexFrom separator i (':' :: ':' :: x) = _
      rw [Text.lastIndexFrom, hsecond]
      simp [separator]
  | cons c cs ih =>
      intro i
      rw [List.cons_append, List.cons_append, Text.lastIndexFrom, ih (i + 1), List.length_cons]
      exact congrArg some (by omega)

/-- The path before the last segment. -/
theorem parent_join {around name : String} (haround : around ≠ "") (hname : name ≠ "")
    (hcolon : ':' ∉ name.toList) : parent (join [around, name]) = around := by
  have ha : around.toList ≠ [] := by simpa using haround
  have hn : name.toList ≠ [] := by simpa using hname
  have htext : (join [around, name]).toList = around.toList ++ separator ++ name.toList := by
    rw [toList_join]
    exact joinChars_pair ha hn
  rw [parent, splitLast?, Text.cutLast?, htext, Text.lastIndex?, lastIndexFrom_append hcolon]
  simp [List.append_assoc]

/-- A path does not lie within a longer one. -/
theorem not_within_join {around name : String} (hname : name ≠ "") :
    within around (join [around, name]) = false := by
  have hn : name.toList ≠ [] := by simpa using hname
  have hlength : around.toList.length < (join [around, name]).toList.length := by
    rw [toList_join]
    show _ < (joinChars [around.toList, name.toList]).length
    by_cases ha : around.toList = []
    · rw [ha, joinChars_nil_left]
      exact List.length_pos_iff.mpr hn
    · have hpos := List.length_pos_iff.mpr hn
      rw [joinChars_pair ha hn, List.length_append, List.length_append]
      omega
  rw [within, Bool.or_eq_false_iff, beq_eq_false_iff_ne]
  constructor
  · intro heq
    rw [← heq] at hlength
    omega
  · rw [Bool.eq_false_iff, Ne, List.isPrefixOf_iff_prefix]
    intro hprefix
    have hle := hprefix.length_le
    rw [List.length_append] at hle
    omega

end ScopePath

/-! ## Parents -/

variable {model : FileModel} {e p : Element}

/-- An element without a visibility of its own is seen as far as its parent. -/
theorem Sight.ofElement_of_inherited (howners : model.owners e = p :: model.owners p)
    (hinherited : e.item.visibility = .inherited) : ofElement model e = ofElement model p := by
  rw [ofElement, howners, List.find?_cons_of_neg (by simp [hinherited])]
  rfl

namespace FileModel

theorem enclosingModule_of_parent (howners : model.owners e = p :: model.owners p)
    (hkind : p.kind ≠ .mod) : model.enclosingModule e = model.enclosingModule p := by
  rw [enclosingModule, howners, List.filter_cons_of_neg (by simpa using hkind)]
  rfl

/-- A member of a module stands one module further in. -/
theorem enclosingModule_of_mod (howners : model.owners e = p :: model.owners p)
    (hkind : p.kind = .mod) :
    model.enclosingModule e = join [model.enclosingModule p, p.name] := by
  have haround : model.modulesAround e = model.modulesAround p ++ [p.name] := by
    simpa using @modulesAround_eq model e p [] howners hkind
  rw [enclosingModule_eq, enclosingModule_eq, haround, ← List.cons_append, join_append,
    join_singleton]

/-- The parent of an element is the first of its owners. -/
theorem owners_of_parent (laws : ScopeLaws model.elements) (he : e ∈ model.elements)
    (hp : p ∈ model.elements) (hparent : e.placement.parentId = some p.id) :
    model.owners e = p :: model.owners p := by
  rcases laws.parent_cases e he with ⟨hnone, -⟩ | ⟨q, hsub, hqParent, -⟩
  · rw [hnone] at hparent
    contradiction
  · have hid : q.id = p.id := Option.some.inj (hqParent.symm.trans hparent)
    obtain rfl : q = p :=
      List.inj_on_of_nodup_map laws.ids_nodup (hsub.subset (by simp)) hp hid
    exact owners_eq_cons laws hsub hparent

end FileModel

/-! ## Accessibility -/

/-- An element is seen from the same modules whether it stands in its module or is that module's
member: from everywhere, from the crate, or from a module that is spelled out; or it is visible in
the module around its own, which is the root of the crate. -/
inductive Namespace.Steady (n : Namespace) : Prop where
  | everywhere : n.reach = .everywhere → Steady n
  | crate : n.reach = .crate → Steady n
  | within {path : String} : n.reach = .within → n.restriction = some path → path ≠ "" → Steady n
  | super : n.reach = .super → n.modulePath = crateRoot → ':' ∉ n.simpleName.toList → Steady n

/-- The reach of a steady element, measured from itself. -/
theorem Namespace.Steady.root?_eq {n inside : Namespace} (h : n.Steady) (hname : n.simpleName ≠ "")
    (hreach : inside.reach = n.reach) (hrestriction : inside.restriction = n.restriction)
    (hpath : inside.modulePath = join [n.modulePath, n.simpleName]) : inside.root? = n.root? := by
  cases h with
  | everywhere h => rw [root?, root?, hreach, h]
  | crate h => rw [root?, root?, hreach, h]
  | within h hpath hne =>
      rw [root?, root?, hreach, h, hrestriction, hpath]
      simp [hne]
  | super h hroot hcolon =>
      have hinside : parent inside.modulePath = crateRoot := by
        rw [hpath, hroot]
        exact parent_join (by decide) hname hcolon
      have houtside : parent crateRoot = "" := by decide
      rw [root?, root?, hreach, h]
      simp only [hinside, hroot, houtside]
      rfl

/-- The namespaces of an element with inherited visibility and of its parent. -/
theorem root?_of_inherited {imports : List ImportPath} (hname : p.name ≠ "")
    (howners : model.owners e = p :: model.owners p) (hinherited : e.item.visibility = .inherited)
    (hsteady : p.kind = .mod → (Resolver.namespaceOf imports model p).Steady) :
    (Resolver.namespaceOf imports model e).root? =
      (Resolver.namespaceOf imports model p).root? := by
  have hsight := Sight.ofElement_of_inherited howners hinherited
  have hreach : (Resolver.namespaceOf imports model e).reach =
      (Resolver.namespaceOf imports model p).reach := congrArg Sight.reach hsight
  have hrestriction : (Resolver.namespaceOf imports model e).restriction =
      (Resolver.namespaceOf imports model p).restriction := congrArg Sight.restriction hsight
  by_cases hkind : p.kind = .mod
  · exact (hsteady hkind).root?_eq hname hreach hrestriction (enclosingModule_of_mod howners hkind)
  · have hpath : (Resolver.namespaceOf imports model e).modulePath =
        (Resolver.namespaceOf imports model p).modulePath := enclosingModule_of_parent howners hkind
    rw [Namespace.root?, Namespace.root?, hreach, hrestriction, hpath]

/-- An element with inherited visibility is accessible from the modules from which its parent is,
provided that a parent that is a module is seen from the same modules when it is taken for its own
member. -/
theorem isAccessibleFrom_of_inherited {path : String} {file : SourceFile} {text : String}
    {root : Node} (h : build path file text root = .ok model) (he : e ∈ model.elements)
    (hp : p ∈ model.elements) (hinherited : e.item.visibility = .inherited)
    (hparent : e.placement.parentId = some p.id) (imports : List ImportPath)
    (hsteady : p.kind = .mod → (Resolver.namespaceOf imports model p).Steady) (home : String) :
    (Resolver.namespaceOf imports model e).isAccessibleFrom home =
      (Resolver.namespaceOf imports model p).isAccessibleFrom home := by
  have laws := scopeLaws_of_build h
  have howners := owners_of_parent laws he hp hparent
  rw [Namespace.isAccessibleFrom, Namespace.isAccessibleFrom,
    root?_of_inherited (laws.name_ne p hp) howners hinherited hsteady]

/-- An element with inherited visibility in a private module is not accessible from the module
around that module, although its parent is. -/
theorem not_isAccessibleFrom_of_inherited {path : String} {file : SourceFile} {text : String}
    {root : Node} (h : build path file text root = .ok model) (he : e ∈ model.elements)
    (hp : p ∈ model.elements) (hinherited : e.item.visibility = .inherited)
    (hparent : e.placement.parentId = some p.id) (hkind : p.kind = .mod)
    (imports : List ImportPath) (hreach : (Resolver.namespaceOf imports model p).reach = .home) :
    (Resolver.namespaceOf imports model p).isAccessibleFrom (model.enclosingModule p) = true ∧
      (Resolver.namespaceOf imports model e).isAccessibleFrom (model.enclosingModule p) =
        false := by
  have laws := scopeLaws_of_build h
  have howners := owners_of_parent laws he hp hparent
  have hreach' : (Resolver.namespaceOf imports model e).reach = .home :=
    (congrArg Sight.reach (Sight.ofElement_of_inherited howners hinherited)).trans hreach
  constructor
  · rw [Namespace.isAccessibleFrom, Namespace.root?, hreach]
    simp [within, Resolver.namespaceOf]
  · rw [Namespace.isAccessibleFrom, Namespace.root?, hreach']
    show within _ (model.enclosingModule e) = false
    rw [enclosingModule_of_mod howners hkind]
    exact not_within_join (laws.name_ne p hp)

/-! ## Two modules with impl blocks -/

namespace Sample

/-- A private module and one that is visible in the module around it, each with an impl block. -/
def ownedText : String :=
  "mod m \x7b impl T \x7b\x7d \x7d\npub(super) mod k \x7b impl T \x7b\x7d \x7d\n"

/-- The tree of that text. -/
def ownedRoot : Node :=
  node "source_file" "" 0 51
    [node "mod_item" "" 0 19
      [node "identifier" "name" 4 5 [],
        node "declaration_list" "body" 6 19
          [node "impl_item" "" 8 17
            [node "type_identifier" "type" 13 14 [], node "declaration_list" "body" 15 17 []]]],
    node "mod_item" "" 20 50
      [node "visibility_modifier" "" 20 30 [node "super" "" 24 29 []],
        node "identifier" "name" 35 36 [],
        node "declaration_list" "body" 37 50
          [node "impl_item" "" 39 48
            [node "type_identifier" "type" 44 45 [], node "declaration_list" "body" 46 48 []]]]]

/-- The text as the root file of a crate, private items included. -/
def ownedFile : SourceFile :=
  ⟨ownedText.toUTF8.toList, "src/lib.rs", ⟨true, true⟩⟩

end Sample

/-- The impl block in the private module is not accessible from the root of the crate, where the
module is. -/
theorem isAccessibleFrom_inherited_strays :
    ∃ model, build "/p/src/lib.rs" Sample.ownedFile Sample.ownedText Sample.ownedRoot = .ok model ∧
      ∃ e ∈ model.elements, ∃ p ∈ model.elements, e.item.visibility = .inherited ∧
        e.placement.parentId = some p.id ∧
        (Resolver.namespaceOf [] model p).isAccessibleFrom "crate" = true ∧
        (Resolver.namespaceOf [] model e).isAccessibleFrom "crate" = false := by
  have h : (build "/p/src/lib.rs" Sample.ownedFile Sample.ownedText Sample.ownedRoot).map
      (fun model => decide (∃ e ∈ model.elements, ∃ p ∈ model.elements,
        e.item.visibility = .inherited ∧ e.placement.parentId = some p.id ∧
        (Resolver.namespaceOf [] model p).isAccessibleFrom "crate" = true ∧
        (Resolver.namespaceOf [] model e).isAccessibleFrom "crate" = false)) = .ok true := by
    decide +kernel
  obtain ⟨model, hmodel, hstrays⟩ := Outcome.map_eq_ok_iff.mp h
  exact ⟨model, hmodel, of_decide_eq_true hstrays⟩

/-- The impl block in the other module, which is visible in the root of the crate. -/
theorem isAccessibleFrom_of_inherited_sample :
    ∃ model, build "/p/src/lib.rs" Sample.ownedFile Sample.ownedText Sample.ownedRoot = .ok model ∧
      ∃ e ∈ model.elements, ∃ p ∈ model.elements, e.item.visibility = .inherited ∧
        e.placement.parentId = some p.id ∧ p.kind = .mod ∧
        (Resolver.namespaceOf [] model p).reach = .super ∧
        ∀ home, (Resolver.namespaceOf [] model e).isAccessibleFrom home =
          (Resolver.namespaceOf [] model p).isAccessibleFrom home := by
  have h : (build "/p/src/lib.rs" Sample.ownedFile Sample.ownedText Sample.ownedRoot).map
      (fun model => decide (∃ e ∈ model.elements, ∃ p ∈ model.elements,
        e.item.visibility = .inherited ∧ e.placement.parentId = some p.id ∧ p.kind = .mod ∧
        (Resolver.namespaceOf [] model p).reach = .super ∧
        (Resolver.namespaceOf [] model p).modulePath = crateRoot ∧
        ':' ∉ (Resolver.namespaceOf [] model p).simpleName.toList)) = .ok true := by
    decide +kernel
  obtain ⟨model, hmodel, hfacts⟩ := Outcome.map_eq_ok_iff.mp h
  obtain ⟨e, he, p, hp, hinherited, hparent, hkind, hreach, hroot, hcolon⟩ :=
    of_decide_eq_true hfacts
  exact ⟨model, hmodel, e, he, p, hp, hinherited, hparent, hkind, hreach,
    isAccessibleFrom_of_inherited hmodel he hp hinherited hparent []
      fun _ => .super hreach hroot hcolon⟩

end CrateAtlas
