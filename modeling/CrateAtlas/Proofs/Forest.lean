import CrateAtlas.Proofs.Placement
import Mathlib.Logic.Relation

/-!
# Elements form a forest

The elements of a file name their parents by identifier.  This file shows that these links form a
forest laid out in pre-order: an element comes before its children, one level above them, and its
descendants are the stretch of elements right after it.

Main results:

- Theorem {lit}`Split.descends_iff`: who descends from whom in a forest, in terms of its first
  tree.
- Theorem {lit}`placeAll_forest`: placing declarations lays out a forest.
- Theorem {lit}`elementsOf_forestLaws`: the identifiers, parents, children and descendants of the
  elements of a file.
-/

namespace CrateAtlas

namespace Element

/-- One element is the parent of another among the elements of a file. -/
def IsParent (elements : List Element) (parent child : Element) : Prop :=
  parent ∈ elements ∧ child ∈ elements ∧ child.placement.parentId = some parent.id

/-- One element lies above another among the elements of a file. -/
def Descends (elements : List Element) : (ancestor element : Element) → Prop :=
  Relation.TransGen (IsParent elements)

theorem Descends.mono {xs ys : List Element} (hsub : xs ⊆ ys) {p e : Element}
    (h : Descends xs p e) : Descends ys p e := by
  have hle : IsParent xs ≤ IsParent ys := by
    intro a b hab
    exact ⟨hsub hab.1, hsub hab.2.1, hab.2.2⟩
  exact Relation.TransGen.mono hle _ _ h

theorem Descends.mem_left {elements : List Element} {p e : Element}
    (h : Descends elements p e) : p ∈ elements := by
  induction h with
  | single hab => exact hab.1
  | tail _ _ ih => exact ih

theorem Descends.mem_right {elements : List Element} {p e : Element}
    (h : Descends elements p e) : e ∈ elements := by
  cases h with
  | single hab => exact hab.2.1
  | tail _ hab => exact hab.2.1

end Element

open Element

/-- Elements in pre-order below an owner: each tree is its root, one level below the owner, then
everything below the root.  Only elements that open a scope have something below them. -/
inductive Forest : (owner : Option String) → (level : Nat) → List Element → Prop where
  | nil {owner level} : Forest owner level []
  | cons {owner level root below rest} :
      root.placement.parentId = owner → root.placement.nestingLevel = level →
      (below ≠ [] → root.kind.opensScope = true) →
      Forest (some root.id) (level + 1) below → Forest owner level rest →
      Forest owner level (root :: (below ++ rest))

namespace Forest

variable {owner : Option String} {level : Nat} {elements below rest : List Element}
  {root p e : Element}

/-! ## Parents -/

/-- An element stands at the top of a forest, or after its parent in it. -/
theorem parent_cases (h : Forest owner level elements) (he : e ∈ elements) :
    (e.placement.parentId = owner ∧ e.placement.nestingLevel = level) ∨
    ∃ p, [p, e].Sublist elements ∧ e.placement.parentId = some p.id ∧
      p.kind.opensScope = true ∧ e.placement.nestingLevel = p.placement.nestingLevel + 1 := by
  induction h with
  | nil => simp at he
  | @cons owner level root below rest hparent hlevel hscope _ _ ihBelow ihRest =>
      rcases List.mem_cons.mp he with rfl | he
      · exact .inl ⟨hparent, hlevel⟩
      · rcases List.mem_append.mp he with he | he
        · right
          rcases ihBelow he with ⟨hp, hl⟩ | ⟨p, hsub, hp, hkind, hl⟩
          · refine ⟨root, ?_, hp, hscope (List.ne_nil_of_mem he), by rw [hl, hlevel]⟩
            apply List.Sublist.cons_cons
            exact List.singleton_sublist.mpr (List.mem_append_left _ he)
          · refine ⟨p, ?_, hp, hkind, hl⟩
            exact (hsub.trans (List.sublist_append_left _ _)).cons _
        · rcases ihRest he with hroot | ⟨p, hsub, hp, hkind, hl⟩
          · exact .inl hroot
          · refine .inr ⟨p, ?_, hp, hkind, hl⟩
            exact (hsub.trans (List.sublist_append_right _ _)).cons _

/-- An element that is not at the top of a forest has its parent in it. -/
theorem parent_mem (h : Forest owner level elements) (he : e ∈ elements) :
    e.placement.parentId = owner ∨ ∃ p ∈ elements, e.placement.parentId = some p.id := by
  rcases h.parent_cases he with ⟨hp, -⟩ | ⟨p, hsub, hp, -⟩
  · exact .inl hp
  · exact .inr ⟨p, hsub.subset (by simp), hp⟩

/-- At the top of a file, and only there, elements have no parent. -/
theorem parentId_eq_none_iff (h : Forest none 0 elements) (he : e ∈ elements) :
    e.placement.parentId = none ↔ e.placement.nestingLevel = 0 := by
  rcases h.parent_cases he with ⟨hp, hl⟩ | ⟨p, -, hp, -, hl⟩
  · simp [hp, hl]
  · simp [hp, hl]

/-! ## Identifiers that tell elements apart -/

/-- The identifiers of a forest are distinct, and its owner is none of them. -/
structure Distinct (owner : Option String) (elements : List Element) : Prop where
  nodup : (elements.map Element.id).Nodup
  fresh : ∀ e ∈ elements, owner ≠ some e.id

theorem Distinct.eq_of_id_eq (h : Distinct owner elements) (hp : p ∈ elements)
    (he : e ∈ elements) (hid : p.id = e.id) : p = e :=
  List.inj_on_of_nodup_map h.nodup hp he hid

/-- The elements of a file are distinct, since no owner is above them. -/
theorem Distinct.of_nodup (h : (elements.map Element.id).Nodup) : Distinct none elements :=
  ⟨h, by simp⟩

theorem Distinct.inner (h : Distinct owner (root :: (below ++ rest))) :
    Distinct (some root.id) below := by
  have hnodup := h.nodup
  rw [List.map_cons, List.map_append, List.nodup_cons] at hnodup
  refine ⟨hnodup.2.of_append_left, ?_⟩
  intro e he heq
  rw [Option.some.injEq] at heq
  exact hnodup.1 (List.mem_append_left _ (heq ▸ List.mem_map_of_mem he))

theorem Distinct.later (h : Distinct owner (root :: (below ++ rest))) :
    Distinct owner rest := by
  have hnodup := h.nodup
  rw [List.map_cons, List.map_append, List.nodup_cons] at hnodup
  refine ⟨hnodup.2.of_append_right, ?_⟩
  intro e he
  exact h.fresh e (by simp [he])

theorem Distinct.root_notMem (h : Distinct owner (root :: (below ++ rest))) :
    root ∉ below ++ rest := by
  have hnodup := h.nodup.of_map
  exact (List.nodup_cons.mp hnodup).1

theorem Distinct.disjoint (h : Distinct owner (root :: (below ++ rest))) (hbelow : e ∈ below) :
    e ∉ rest := by
  have hnodup := (List.nodup_cons.mp h.nodup.of_map).2
  exact List.disjoint_of_nodup_append hnodup hbelow

/-! ## Descendants -/

/-- An element of a forest stands at its top or below an element that does. -/
theorem top_or_descends (h : Forest owner level elements) (he : e ∈ elements) :
    e.placement.parentId = owner ∨
      ∃ p ∈ elements, p.placement.parentId = owner ∧ Descends elements p e := by
  induction h with
  | nil => simp at he
  | @cons owner level root below rest hparent _ _ _ _ ihBelow ihRest =>
      have hbelowSub : below ⊆ root :: (below ++ rest) := fun x hx => by simp [hx]
      have hrestSub : rest ⊆ root :: (below ++ rest) := fun x hx => by simp [hx]
      rcases List.mem_cons.mp he with rfl | he
      · exact .inl hparent
      · rcases List.mem_append.mp he with he | he
        · refine .inr ⟨root, by simp, hparent, ?_⟩
          rcases ihBelow he with hlink | ⟨p, hp, hlink, hdesc⟩
          · exact .single ⟨by simp, hbelowSub he, hlink⟩
          · exact .head ⟨by simp, hbelowSub hp, hlink⟩ (hdesc.mono hbelowSub)
        · rcases ihRest he with hlink | ⟨p, hp, hlink, hdesc⟩
          · exact .inl hlink
          · exact .inr ⟨p, hrestSub hp, hlink, hdesc.mono hrestSub⟩

/-- A forest with distinct identifiers, told apart into its first tree and the rest. -/
structure Split (owner : Option String) (level : Nat) (root : Element)
    (below rest : List Element) : Prop where
  root_parentId : root.placement.parentId = owner
  forest_below : Forest (some root.id) (level + 1) below
  forest_rest : Forest owner level rest
  distinct : Distinct owner (root :: (below ++ rest))

/-- In a forest an element is linked to the root of its own tree, or inside its own part. -/
theorem Split.isParent_iff (h : Split owner level root below rest) :
    IsParent (root :: (below ++ rest)) p e ↔
      (p = root ∧ e ∈ below ∧ e.placement.parentId = some root.id) ∨
        IsParent below p e ∨ IsParent rest p e := by
  constructor
  · rintro ⟨hp, he, hlink⟩
    rcases List.mem_cons.mp he with rfl | he
    · exact (h.distinct.fresh p hp (h.root_parentId ▸ hlink)).elim
    · rcases List.mem_append.mp he with hbelowMem | hrestMem
      · rcases h.forest_below.parent_mem hbelowMem with hparent | ⟨q, hq, hparent⟩
        · have hid : p.id = root.id := Option.some.inj (hlink.symm.trans hparent)
          have : p = root := h.distinct.eq_of_id_eq hp (by simp) hid
          exact .inl ⟨this, hbelowMem, hparent⟩
        · have hid : p.id = q.id := Option.some.inj (hlink.symm.trans hparent)
          have : p = q := h.distinct.eq_of_id_eq hp (by simp [hq]) hid
          exact .inr (.inl ⟨this ▸ hq, hbelowMem, hlink⟩)
      · rcases h.forest_rest.parent_mem hrestMem with hparent | ⟨q, hq, hparent⟩
        · exact (h.distinct.fresh p hp (hparent ▸ hlink)).elim
        · have hid : p.id = q.id := Option.some.inj (hlink.symm.trans hparent)
          have : p = q := h.distinct.eq_of_id_eq hp (by simp [hq]) hid
          exact .inr (.inr ⟨this ▸ hq, hrestMem, hlink⟩)
  · rintro (⟨rfl, he, hlink⟩ | ⟨hp, he, hlink⟩ | ⟨hp, he, hlink⟩)
    · exact ⟨by simp, by simp [he], hlink⟩
    · exact ⟨by simp [hp], by simp [he], hlink⟩
    · exact ⟨by simp [hp], by simp [he], hlink⟩

/-- Who descends from whom in a forest: everything below its first root does from that root, and
otherwise both elements lie in the same part. -/
theorem Split.descends_iff (h : Split owner level root below rest) :
    Descends (root :: (below ++ rest)) p e ↔
      (p = root ∧ e ∈ below) ∨ Descends below p e ∨ Descends rest p e := by
  constructor
  · intro hdesc
    -- The last link of a chain cannot leave the part in which the chain has arrived.
    induction hdesc with
    | single hlink =>
        rcases h.isParent_iff.mp hlink with ⟨rfl, he, -⟩ | hlink | hlink
        · exact .inl ⟨rfl, he⟩
        · exact .inr (.inl (.single hlink))
        · exact .inr (.inr (.single hlink))
    | @tail m e _ hlink ih =>
        have hm : m ∈ below ++ rest := by
          rcases ih with ⟨-, hm⟩ | hm | hm
          · exact List.mem_append_left _ hm
          · exact List.mem_append_left _ hm.mem_right
          · exact List.mem_append_right _ hm.mem_right
        rcases h.isParent_iff.mp hlink with ⟨rfl, -⟩ | hinner | hinner
        · exact (h.distinct.root_notMem hm).elim
        · rcases ih with ⟨hp, -⟩ | hdesc | hdesc
          · exact .inl ⟨hp, hinner.2.1⟩
          · exact .inr (.inl (hdesc.tail hinner))
          · exact (h.distinct.disjoint hinner.1 hdesc.mem_right).elim
        · rcases ih with ⟨-, hm⟩ | hdesc | hdesc
          · exact (h.distinct.disjoint hm hinner.1).elim
          · exact (h.distinct.disjoint hdesc.mem_right hinner.1).elim
          · exact .inr (.inr (hdesc.tail hinner))
  · have hbelowSub : below ⊆ root :: (below ++ rest) := fun x hx => by simp [hx]
    have hrestSub : rest ⊆ root :: (below ++ rest) := fun x hx => by simp [hx]
    rintro (⟨rfl, he⟩ | hdesc | hdesc)
    · rcases h.forest_below.top_or_descends he with hlink | ⟨q, hq, hlink, hdesc⟩
      · exact .single ⟨by simp, hbelowSub he, hlink⟩
      · exact .head ⟨by simp, hbelowSub hq, hlink⟩ (hdesc.mono hbelowSub)
    · exact hdesc.mono hbelowSub
    · exact hdesc.mono hrestSub

/-- The descendants of an element are the stretch of elements right after it. -/
theorem descendants_block (h : Forest owner level elements) (hdistinct : Distinct owner elements)
    (hp : p ∈ elements) :
    ∃ before below after, elements = before ++ p :: (below ++ after) ∧
      ∀ e, Descends elements p e ↔ e ∈ below := by
  induction h with
  | nil => simp at hp
  | @cons owner level root below rest hparent _ _ hbelow hrest ihBelow ihRest =>
      have hsplit : Split owner level root below rest := ⟨hparent, hbelow, hrest, hdistinct⟩
      have hnotMem := hdistinct.root_notMem
      rcases List.mem_cons.mp hp with rfl | hp
      · refine ⟨[], below, rest, rfl, ?_⟩
        intro e
        rw [hsplit.descends_iff]
        constructor
        · rintro (⟨-, he⟩ | hdesc | hdesc)
          · exact he
          · exact (hnotMem (List.mem_append_left _ hdesc.mem_left)).elim
          · exact (hnotMem (List.mem_append_right _ hdesc.mem_left)).elim
        · intro he
          exact .inl ⟨rfl, he⟩
      · have hne : p ≠ root := fun heq => hnotMem (heq ▸ hp)
        rcases List.mem_append.mp hp with hp | hp
        · obtain ⟨before, inner, after, heq, hiff⟩ := ihBelow hdistinct.inner hp
          refine ⟨root :: before, inner, after ++ rest, by simp [heq], ?_⟩
          intro e
          rw [hsplit.descends_iff, ← hiff e]
          constructor
          · rintro (⟨heq, -⟩ | hdesc | hdesc)
            · exact (hne heq).elim
            · exact hdesc
            · exact (hdistinct.disjoint hp hdesc.mem_left).elim
          · intro hdesc
            exact .inr (.inl hdesc)
        · obtain ⟨before, inner, after, heq, hiff⟩ := ihRest hdistinct.later hp
          refine ⟨root :: (below ++ before), inner, after, by simp [heq], ?_⟩
          intro e
          rw [hsplit.descends_iff, ← hiff e]
          constructor
          · rintro (⟨heq, -⟩ | hdesc | hdesc)
            · exact (hne heq).elim
            · exact (hdistinct.disjoint hdesc.mem_left hp).elim
            · exact hdesc
          · intro hdesc
            exact .inr (.inr hdesc)

end Forest

namespace Declaration

/-! ## The forest of a file -/

/-- Placing declarations lays out a forest below the innermost open scope. -/
theorem placeAll_forest {declarations : List Declaration} (hscoped : Scoped declarations)
    (children : String → List String) :
    ∀ h : Hierarchy,
      Forest h.parent? h.depth ((placeAll h declarations).1.map (elementOf children)) := by
  induction hscoped with
  | nil =>
      intro h
      rw [placeAll]
      exact .nil
  | @cons item segment members rest hscope _ _ ihMembers ihRest =>
      intro h
      let inside := (h.place item.kind item.name).enter segment (h.next item.kind item.name).id
      have hframes : (placeAll inside members).2.close.frames = h.frames :=
        frames_close_placeAll h _ _ _ _ members
      rw [placeAll_cons, List.map_cons, List.map_append]
      refine .cons rfl rfl ?_ (ihMembers inside) ?_
      · intro hne
        apply hscope
        rintro rfl
        rw [placeAll] at hne
        exact hne rfl
      · rw [← Hierarchy.parent?_congr hframes, ← Hierarchy.depth_congr hframes]
        exact ihRest _

end Declaration

/-- The laws of the elements of a file. -/
structure ForestLaws (filePath : String) (elements : List Element) : Prop where
  /-- Identifiers carry the position of their element, counted from one. -/
  id_eq : ∀ i e, elements[i]? = some e →
    ElementId.create filePath e.kind.label e.qualifiedName (i + 1 : Nat) = .ok e.id
  ids_nodup : (elements.map Element.id).Nodup
  /-- Elements without a parent are those at the top level. -/
  top_iff : ∀ e ∈ elements, e.placement.parentId = none ↔ e.placement.nestingLevel = 0
  /-- A parent is the one element with its identifier; it comes first, one level up, and opens a
  scope. -/
  parent : ∀ e ∈ elements, ∀ id, e.placement.parentId = some id →
    ∃ p, [p, e].Sublist elements ∧ (∀ q ∈ elements, q.id = id ↔ q = p) ∧
      (p.kind = .mod ∨ p.kind = .impl ∨ p.kind = .trait) ∧
      e.placement.nestingLevel = p.placement.nestingLevel + 1
  /-- Children are listed in order, all of them, once. -/
  children : ∀ p ∈ elements, p.childrenIds.Nodup ∧ p.childrenIds =
    (elements.filter fun e => e.placement.parentId = some p.id).map Element.id
  /-- The descendants of an element are the stretch right after it. -/
  block : ∀ p ∈ elements, ∃ before below after,
    elements = before ++ p :: (below ++ after) ∧ ∀ e, Descends elements p e ↔ e ∈ below

theorem Kind.opensScope_iff (kind : Kind) :
    kind.opensScope = true ↔ kind = .mod ∨ kind = .impl ∨ kind = .trait := by
  cases kind <;> simp [Kind.opensScope]

/-- The elements of a forest of declarations are laid out as a forest. -/
theorem Declaration.elements_forest {declarations : List Declaration}
    (hscoped : Scoped declarations) (filePath : String) :
    Forest none 0 (elements filePath declarations) :=
  placeAll_forest hscoped _ (.start filePath)

/-- The laws hold of the elements of every forest of declarations. -/
theorem Declaration.elements_forestLaws {declarations : List Declaration}
    (hscoped : Scoped declarations) (filePath : String) :
    ForestLaws filePath (elements filePath declarations) := by
  have hforest := elements_forest hscoped filePath
  have hnodup := nodup_ids filePath declarations
  have hdistinct := Forest.Distinct.of_nodup hnodup
  refine ⟨?_, hnodup, ?_, ?_, ?_, ?_⟩
  · intro i e hi
    rw [ElementId.create_succ, id_eq_of_getElem? hi]
  · intro e he
    exact hforest.parentId_eq_none_iff he
  · intro e he id hid
    rcases hforest.parent_cases he with ⟨hnone, -⟩ | ⟨p, hsub, hp, hkind, hlevel⟩
    · rw [hnone] at hid
      contradiction
    · have hpid : p.id = id := Option.some.inj (hp.symm.trans hid)
      have hpmem : p ∈ elements filePath declarations := hsub.subset (by simp)
      refine ⟨p, hsub, ?_, p.kind.opensScope_iff.mp hkind, hlevel⟩
      intro q hq
      constructor
      · intro hqid
        exact hdistinct.eq_of_id_eq hq hpmem (hqid.trans hpid.symm)
      · rintro rfl
        exact hpid
  · intro p hp
    refine ⟨?_, childrenIds_eq hp⟩
    rw [childrenIds_eq hp]
    exact hnodup.sublist (List.filter_sublist.map _)
  · intro p hp
    exact hforest.descendants_block hdistinct hp

/-- The elements of a file have consecutive identifiers, and their links form a forest in
pre-order. -/
theorem elementsOf_forestLaws {file : SourceFile} {root : Node} {elements : List Element}
    (h : elementsOf file root = .ok elements) : ForestLaws file.path elements := by
  obtain ⟨declarations, hroot, rfl⟩ := Outcome.map_eq_ok_iff.mp h
  exact Declaration.elements_forestLaws (Declaration.ofRoot_eq_ok_iff.mp hroot).scoped file.path

/-! ## A file with every kind of scope -/

namespace Sample

/-- A named node of a sample tree. -/
def node (kind field : String) (start stop : Nat) (children : List Node) : Node :=
  .mk ⟨kind, true, false, false, start, stop, field, false⟩ children

/-- A module with a private function, a public one, an impl block and a foreign block. -/
def text : String :=
  "pub mod a\x7bfn b()\x7b\x7dpub fn c()\x7b\x7dimpl T for S\x7bfn d()\x7b\x7d\x7dextern\x7bpub fn e();\x7d\x7d"

/-- The members of the module. -/
def members : List Node :=
  [node "function_item" "" 10 18 [node "identifier" "name" 13 14 []],
    node "function_item" "" 18 30
      [node "visibility_modifier" "" 18 21 [], node "identifier" "name" 25 26 []],
    node "impl_item" "" 30 52
      [node "type_identifier" "trait" 35 36 [], node "type_identifier" "type" 41 42 [],
        node "declaration_list" "body" 42 52
          [node "function_item" "" 43 51 [node "identifier" "name" 46 47 []]]],
    node "foreign_mod_item" "" 52 71
      [node "declaration_list" "body" 58 71
        [node "function_signature_item" "" 59 70
          [node "visibility_modifier" "" 59 62 [], node "identifier" "name" 66 67 []]]]]

/-- The tree of the sample text. -/
def root : Node :=
  node "source_file" "" 0 72
    [node "mod_item" "" 0 72
      [node "visibility_modifier" "" 0 3 [], node "identifier" "name" 8 9 [],
        node "declaration_list" "body" 9 72 members]]

/-- The sample as a file, with documentation and with or without its private items. -/
def file (includePrivate : Bool) : SourceFile :=
  ⟨text.toUTF8.toList, "src/a.rs", ⟨true, includePrivate⟩⟩

end Sample

/-- The laws hold of the six elements of the sample. -/
theorem elementsOf_forestLaws_sample :
    ∃ elements, elementsOf (Sample.file true) Sample.root = .ok elements ∧
      elements.map Element.id =
        ["src/a.rs::Module::a::1", "src/a.rs::Function::a::b::2", "src/a.rs::Function::a::c::3",
          "src/a.rs::Impl::a::T for S::4", "src/a.rs::Function::a::<S as T>::d::5",
          "src/a.rs::Function::a::e::6"] ∧
      ForestLaws "src/a.rs" elements := by
  have hids : (elementsOf (Sample.file true) Sample.root).map (List.map Element.id) =
      .ok ["src/a.rs::Module::a::1", "src/a.rs::Function::a::b::2", "src/a.rs::Function::a::c::3",
        "src/a.rs::Impl::a::T for S::4", "src/a.rs::Function::a::<S as T>::d::5",
        "src/a.rs::Function::a::e::6"] := by
    decide +kernel
  obtain ⟨elements, h, hids⟩ := Outcome.map_eq_ok_iff.mp hids
  exact ⟨elements, h, hids, elementsOf_forestLaws h⟩

end CrateAtlas
