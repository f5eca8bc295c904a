import CrateAtlas.Element
import CrateAtlas.Proofs.ElementId
import CrateAtlas.Proofs.Traversal
import Mathlib.Data.List.Nodup

/-!
# What a walk hands out

Placing the declarations of a file threads a hierarchy through the forest.  This file says what
a stretch of placements does to the hierarchy: the open scopes come back as they were, ordinals
run on without a gap, and the table of links grows by exactly the links of the elements placed.

Main results:

- Theorem {lit}`placeAll_advances`: the effect of placing a list of declarations.
- Theorem {lit}`id_eq_of_getElem?`: the identifier of an element is made of its file, its kind,
  its qualified name and its position.
- Theorem {lit}`childrenIds_eq`: the children of an element are the elements that name it as
  their parent.
-/

namespace CrateAtlas

namespace Hierarchy

/-! ## Single steps -/

/-- Placing an element adds its link, if a scope is open. -/
theorem place_links (h : Hierarchy) (kind : Kind) (name : String) :
    (h.place kind name).links =
      h.links ++ (h.parent?.map fun owner => (owner, (h.next kind name).id)).toList := by
  unfold place
  cases h.parent? <;> rfl

@[simp]
theorem next_parentId (h : Hierarchy) (kind : Kind) (name : String) :
    (h.next kind name).parentId = h.parent? :=
  rfl

/-- The identifier of the next element carries the next ordinal. -/
theorem next_id (h : Hierarchy) (kind : Kind) (name : String) :
    (h.next kind name).id = ElementId.render
      ⟨h.filePath, kind.label, (h.next kind name).qualifiedName, h.placed + 1⟩ :=
  rfl

/-- The owner of the innermost scope depends on the open scopes only. -/
theorem parent?_congr {h h' : Hierarchy} (hframes : h.frames = h'.frames) :
    h.parent? = h'.parent? := by
  unfold parent?
  rw [hframes]

/-- The number of open scopes depends on the open scopes only. -/
theorem depth_congr {h h' : Hierarchy} (hframes : h.frames = h'.frames) :
    h.depth = h'.depth := by
  unfold depth
  rw [hframes]

end Hierarchy

namespace Declaration

/-! ## Induction over forests -/

variable {file : SourceFile} {around : List Node} {forced : Option Visibility}
  {before nodes : List Node} {node : Node} {kind : Kind} {named : ItemName}
  {notes : List Docs.Note} {visibility : Visibility} {item : Item}
  {declarations : List Declaration}

/-- Declarations are handled one by one: the members of the first, then the rest. -/
@[elab_as_elim]
theorem forestInduction {P : List Declaration → Prop} (nil : P [])
    (cons : ∀ item segment members rest, P members → P rest →
      P (mk item segment members :: rest)) :
    ∀ declarations, P declarations
  | [] => nil
  | mk item segment members :: rest =>
      cons item segment members rest (forestInduction nil cons members)
        (forestInduction nil cons rest)

/-- Only items that open a scope have members. -/
inductive Scoped : List Declaration → Prop where
  | nil : Scoped []
  | cons {item segment members rest} :
      (members ≠ [] → item.kind.opensScope = true) → Scoped members → Scoped rest →
      Scoped (mk item segment members :: rest)

theorem Scoped.append {xs ys : List Declaration} (hx : Scoped xs) (hy : Scoped ys) :
    Scoped (xs ++ ys) := by
  induction hx with
  | nil => exact hy
  | cons hscope hmembers _ _ ih => exact .cons hscope hmembers ih

/-- An item that is read has the kind that its node declares. -/
theorem Takes.kind_item
    (h : Takes file around forced before node kind named notes visibility item) :
    item.kind = kind ∧ item.name = named.name ∧ item.visibility = visibility ∧
      item.location = Location.of file.source file.path node.label := by
  have hread := h.read_eq
  simp only [Item.read, Outcome.bind_eq_ok_iff, Outcome.pure_eq_ok_iff] at hread
  obtain ⟨inner, -, generics, -, usages, -, rfl⟩ := hread
  exact ⟨rfl, rfl, rfl, rfl⟩

/-- The reader gives members only to items that open a scope. -/
theorem Traversal.scoped
    (h : Traversal file around forced before nodes declarations) : Scoped declarations := by
  induction h with
  | nil => exact .nil
  | pass _ _ ih => exact ih
  | block _ _ _ _ _ ihInner ihLater => exact ihInner.append ihLater
  | leaf _ _ _ ih => exact .cons (fun h => (h rfl).elim) .nil ih
  | scope htakes hscope _ _ _ ihMembers ihLater =>
      exact .cons (fun _ => htakes.kind_item.1 ▸ hscope) ihMembers ihLater

/-! ## Placing a forest -/

/-- Placing one declaration before others, step by step. -/
theorem placeAll_cons (h : Hierarchy) (item : Item) (segment : String)
    (members rest : List Declaration) :
    placeAll h (mk item segment members :: rest) =
      let placement := h.next item.kind item.name
      let inside := (h.place item.kind item.name).enter segment placement.id
      let below := placeAll inside members
      let later := placeAll below.2.close rest
      ((item, placement) :: (below.1 ++ later.1), later.2) := by
  rw [placeAll, place]
  rfl

/-- The link that an element leaves in the table of children. -/
def linkOf (placed : Item × Placement) : Option (String × String) :=
  placed.2.parentId.map fun owner => (owner, placed.2.id)

/-- What a stretch of placements does to a hierarchy. -/
structure Advances (before : Hierarchy) (placed : List (Item × Placement))
    (after : Hierarchy) : Prop where
  filePath_eq : after.filePath = before.filePath
  frames_eq : after.frames = before.frames
  placed_eq : after.placed = before.placed + placed.length
  links_eq : after.links = before.links ++ placed.filterMap linkOf
  id_eq : ∀ i item placement, placed[i]? = some (item, placement) →
    placement.id = ElementId.render
      ⟨before.filePath, item.kind.label, placement.qualifiedName, before.placed + i + 1⟩

theorem Advances.refl (h : Hierarchy) : Advances h [] h := by
  refine ⟨rfl, rfl, rfl, by simp, ?_⟩
  intro i item placement hi
  simp at hi

theorem Advances.trans {h₀ h₁ h₂ : Hierarchy} {xs ys : List (Item × Placement)}
    (hx : Advances h₀ xs h₁) (hy : Advances h₁ ys h₂) : Advances h₀ (xs ++ ys) h₂ := by
  refine ⟨hy.filePath_eq.trans hx.filePath_eq, hy.frames_eq.trans hx.frames_eq, ?_, ?_, ?_⟩
  · rw [hy.placed_eq, hx.placed_eq, List.length_append]
    omega
  · rw [hy.links_eq, hx.links_eq, List.filterMap_append, List.append_assoc]
  · intro i item placement hi
    rw [List.getElem?_append] at hi
    split at hi
    · exact hx.id_eq i item placement hi
    · have hid := hy.id_eq _ item placement hi
      rw [hx.filePath_eq, hx.placed_eq] at hid
      rw [hid]
      congr 2
      omega

/-- Placing an element and everything in its scope. -/
theorem Advances.scope {h after : Hierarchy} {item : Item} {segment owner : String}
    {below : List (Item × Placement)}
    (hbelow : Advances ((h.place item.kind item.name).enter segment owner) below after) :
    Advances h ((item, h.next item.kind item.name) :: below) after.close := by
  refine ⟨hbelow.filePath_eq, ?_, ?_, ?_, ?_⟩
  · show after.frames.tail = h.frames
    rw [hbelow.frames_eq]
    rfl
  · show after.placed = _
    rw [hbelow.placed_eq, List.length_cons]
    show h.placed + 1 + below.length = _
    omega
  · show after.links = _
    rw [hbelow.links_eq]
    show (h.place item.kind item.name).links ++ _ = _
    rw [Hierarchy.place_links, List.append_assoc]
    congr 1
    unfold linkOf
    rw [List.filterMap_cons, Hierarchy.next_parentId]
    cases h.parent? <;> rfl
  · intro i item' placement hi
    cases i with
    | zero =>
        simp only [List.getElem?_cons_zero, Option.some.injEq, Prod.mk.injEq] at hi
        obtain ⟨rfl, rfl⟩ := hi
        exact Hierarchy.next_id h _ _
    | succ i =>
        rw [List.getElem?_cons_succ] at hi
        rw [hbelow.id_eq i item' placement hi]
        show ElementId.render ⟨h.filePath, _, _, h.placed + 1 + i + 1⟩ = _
        congr 2
        omega

/-- The effect of placing a list of declarations. -/
theorem placeAll_advances (declarations : List Declaration) :
    ∀ h : Hierarchy, Advances h (placeAll h declarations).1 (placeAll h declarations).2 := by
  induction declarations using forestInduction with
  | nil =>
      intro h
      rw [placeAll]
      exact .refl h
  | cons item segment members rest ihMembers ihRest =>
      intro h
      rw [placeAll_cons]
      exact (Advances.scope (ihMembers _)).trans (ihRest _)

/-- Once the members of an item are placed and its scope is closed, the open scopes are as they
were before it. -/
theorem frames_close_placeAll (h : Hierarchy) (kind : Kind) (name segment owner : String)
    (members : List Declaration) :
    (placeAll ((h.place kind name).enter segment owner) members).2.close.frames = h.frames := by
  show (placeAll _ members).2.frames.tail = h.frames
  rw [(placeAll_advances members _).frames_eq]
  rfl

mutual

/-- The items of a declaration in pre-order. -/
def items : Declaration → List Item
  | mk item _ members => item :: itemsAll members

/-- The items of several declarations in pre-order. -/
def itemsAll : List Declaration → List Item
  | [] => []
  | declaration :: rest => items declaration ++ itemsAll rest

end

@[simp]
theorem itemsAll_nil : itemsAll [] = [] := by
  rw [itemsAll]

@[simp]
theorem itemsAll_cons (item : Item) (segment : String) (members rest : List Declaration) :
    itemsAll (mk item segment members :: rest) = item :: (itemsAll members ++ itemsAll rest) := by
  rw [itemsAll, items]
  rfl

@[simp]
theorem itemsAll_append (xs ys : List Declaration) :
    itemsAll (xs ++ ys) = itemsAll xs ++ itemsAll ys := by
  induction xs with
  | nil => simp
  | cons declaration rest ih => simp [itemsAll, ih]

/-- Items are placed in pre-order. -/
theorem placeAll_items (declarations : List Declaration) :
    ∀ h : Hierarchy, (placeAll h declarations).1.map Prod.fst = itemsAll declarations := by
  induction declarations using forestInduction with
  | nil =>
      intro h
      rw [placeAll]
      rfl
  | cons item segment members rest ihMembers ihRest =>
      intro h
      rw [placeAll_cons, itemsAll_cons, List.map_cons, List.map_append, ihMembers, ihRest]

/-! ## Elements -/

/-- An element placed, with the children that a table gives it. -/
def elementOf (children : String → List String) (placed : Item × Placement) : Element :=
  ⟨placed.1, placed.2, children placed.2.id⟩

@[simp]
theorem elementOf_item (children : String → List String) (placed : Item × Placement) :
    (elementOf children placed).item = placed.1 :=
  rfl

@[simp]
theorem elementOf_id (children : String → List String) (placed : Item × Placement) :
    (elementOf children placed).id = placed.2.id :=
  rfl

/-- The elements of a forest are the items placed, with the children found in the end. -/
theorem elements_eq (filePath : String) (declarations : List Declaration) :
    elements filePath declarations =
      (placeAll (.start filePath) declarations).1.map
        (elementOf (placeAll (.start filePath) declarations).2.childrenOf) :=
  rfl

/-- The identifier of an element is made of its file, kind, qualified name and position. -/
theorem id_eq_of_getElem? {filePath : String} {declarations : List Declaration} {i : Nat}
    {element : Element} (h : (elements filePath declarations)[i]? = some element) :
    element.id = ElementId.render
      ⟨filePath, element.kind.label, element.qualifiedName, i + 1⟩ := by
  rw [elements_eq, List.getElem?_map, Option.map_eq_some_iff] at h
  obtain ⟨⟨item, placement⟩, hplaced, rfl⟩ := h
  have hid := (placeAll_advances declarations (.start filePath)).id_eq i item placement hplaced
  rw [elementOf_id, hid]
  show ElementId.render ⟨filePath, item.kind.label, placement.qualifiedName, 0 + i + 1⟩ = _
  rw [Nat.zero_add]
  rfl

/-- Elements whose identifiers carry their positions have distinct identifiers. -/
theorem nodup_of_id_eq {filePath : String} {elements : List Element}
    (h : ∀ i e, elements[i]? = some e →
      e.id = ElementId.render ⟨filePath, e.kind.label, e.qualifiedName, i + 1⟩) :
    (elements.map Element.id).Nodup := by
  rw [List.Nodup, List.pairwise_map, List.pairwise_iff_getElem]
  intro i j hi hj hij heq
  rw [h i _ (List.getElem?_eq_getElem hi), h j _ (List.getElem?_eq_getElem hj)] at heq
  have hordinal : i + 1 = j + 1 := ElementId.ordinal_eq_of_render_eq heq
  omega

/-- No two elements of a forest have the same identifier. -/
theorem nodup_ids (filePath : String) (declarations : List Declaration) :
    ((elements filePath declarations).map Element.id).Nodup :=
  nodup_of_id_eq fun _ _ => id_eq_of_getElem?

/-- Reading the links of an owner off the elements placed. -/
theorem filterMap_linkOf (placed : List (Item × Placement)) (owner : String) :
    ((placed.filterMap linkOf).filter fun link => link.1 == owner).map Prod.snd =
      (placed.filter fun p => p.2.parentId = some owner).map fun p => p.2.id := by
  induction placed with
  | nil => rfl
  | cons p rest ih =>
      rw [List.filterMap_cons]
      cases hparent : p.2.parentId with
      | none => simpa [linkOf, hparent] using ih
      | some other =>
          by_cases howner : other = owner
          · simpa [linkOf, hparent, howner] using ih
          · simpa [linkOf, hparent, howner] using ih

/-- The children of an element are the elements that name it as their parent, in order. -/
theorem childrenIds_eq {filePath : String} {declarations : List Declaration} {element : Element}
    (h : element ∈ elements filePath declarations) :
    element.childrenIds = ((elements filePath declarations).filter fun e =>
      e.placement.parentId = some element.id).map Element.id := by
  rw [elements_eq] at h ⊢
  obtain ⟨p, -, rfl⟩ := List.mem_map.mp h
  show (placeAll (.start filePath) declarations).2.childrenOf p.2.id = _
  unfold Hierarchy.childrenOf
  rw [(placeAll_advances declarations (.start filePath)).links_eq]
  show (List.filter _ ([] ++ _)).map _ = _
  rw [List.nil_append, filterMap_linkOf, List.filter_map, List.map_map]
  rfl

end Declaration

end CrateAtlas
