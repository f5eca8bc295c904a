import CrateAtlas.Proofs.Placement

/-!
# Reading a file without its documentation

The documentation of items is kept or dropped by an option that nothing else depends on: not
which items are found, not whether the file can be read, and not where the elements are placed.

Main results:

- Theorem {lit}`among_withoutDocs`: the reader without documentation finds the declarations of the
  other one, or is refused for the same reason.
- Theorem {lit}`elementsOf_withoutDocs`: the same for the elements of a file.
-/

namespace CrateAtlas

/-- An item without its documentation. -/
def Item.withoutDocs (item : Item) : Item :=
  { item with docs := [] }

/-- An element without its documentation. -/
def Element.withoutDocs (element : Element) : Element :=
  { element with item := element.item.withoutDocs }

variable {source : Source} {path : String} {includePrivate : Bool}

/-- Reading an item without documentation drops its documentation and nothing else. -/
theorem Item.read_withoutDocs (around : List Node) (kind : Kind) (name : String)
    (notes : List Docs.Note) (visibility : Visibility) (node : Node) :
    Item.read ⟨source, path, ⟨false, includePrivate⟩⟩ around kind name notes visibility node =
      (Item.read ⟨source, path, ⟨true, includePrivate⟩⟩ around kind name notes visibility
        node).map Item.withoutDocs := by
  unfold Item.read
  rw [Outcome.map_bind]
  refine Outcome.bind_congr fun inner => ?_
  rw [Outcome.map_bind]
  refine Outcome.bind_congr fun generics => ?_
  rw [Outcome.map_bind]
  exact Outcome.bind_congr fun usages => rfl

namespace Declaration

/-- The declarations with no documentation on their items. -/
def withoutDocsAll : List Declaration → List Declaration
  | [] => []
  | mk item segment members :: rest =>
      mk item.withoutDocs segment (withoutDocsAll members) :: withoutDocsAll rest

theorem withoutDocsAll_append (xs ys : List Declaration) :
    withoutDocsAll (xs ++ ys) = withoutDocsAll xs ++ withoutDocsAll ys := by
  induction xs with
  | nil => rw [withoutDocsAll, List.nil_append, List.nil_append]
  | cons declaration rest ih =>
      cases declaration with
      | mk item segment members =>
          rw [List.cons_append, withoutDocsAll, withoutDocsAll, ih, List.cons_append]

/-! ## The reader -/

/-- Without documentation the nodes are read as their declarations without documentation, or
refused for the same reason. -/
def ReadAlike (source : Source) (path : String) (includePrivate : Bool) (nodes : List Node) :
    Prop :=
  ∀ around forced before,
    among ⟨source, path, ⟨false, includePrivate⟩⟩ around forced before nodes =
      (among ⟨source, path, ⟨true, includePrivate⟩⟩ around forced before nodes).map withoutDocsAll

theorem inBody_withoutDocs {node : Node} (around : List Node) (forced : Option Visibility)
    (ih : ∀ body, node.child? "body" = some body →
      ReadAlike source path includePrivate body.children) :
    inBody ⟨source, path, ⟨false, includePrivate⟩⟩ around forced node.children =
      (inBody ⟨source, path, ⟨true, includePrivate⟩⟩ around forced node.children).map
        withoutDocsAll := by
  rw [inBody_children, inBody_children]
  cases hbody : node.child? "body" with
  | none => simp [Except.map, withoutDocsAll]
  | some body => exact ih body hbody _ _ _

theorem ofItem_withoutDocs {node : Node} (around : List Node) (forced : Option Visibility)
    (before : List Node) (kind : Kind)
    (ih : ∀ body, node.child? "body" = some body →
      ReadAlike source path includePrivate body.children) :
    ofItem ⟨source, path, ⟨false, includePrivate⟩⟩ around forced before kind node =
      (ofItem ⟨source, path, ⟨true, includePrivate⟩⟩ around forced before kind node).map
        withoutDocsAll := by
  cases node with
  | mk label children =>
      have hbody := fun forced' => inBody_withoutDocs (Node.mk label children :: around) forced' ih
      rw [ofItem, ofItem, Outcome.map_bind]
      refine Outcome.bind_congr fun name => ?_
      cases name with
      | none => simp [withoutDocsAll, pure, Except.pure, Except.map]
      | some named =>
          simp only [Outcome.map_bind]
          refine Outcome.bind_congr fun notes => Outcome.bind_congr fun visibility => ?_
          by_cases hhidden : visibility = .priv ∧ includePrivate = false
          · rw [if_pos hhidden, if_pos hhidden]
            simp [withoutDocsAll, pure, Except.pure, Except.map]
          · rw [if_neg hhidden, if_neg hhidden, Item.read_withoutDocs, Outcome.bind_map,
              Outcome.map_bind]
            refine Outcome.bind_congr fun item => ?_
            by_cases hscope : kind.opensScope = true
            · rw [if_pos hscope, if_pos hscope, Outcome.map_bind]
              have hmembers := hbody (Item.memberVisibility visibility kind (.mk label children))
              rw [Node.children_mk] at hmembers
              rw [hmembers, Outcome.bind_map]
              refine Outcome.bind_congr fun members => ?_
              simp [withoutDocsAll, pure, Except.pure, Except.map]
            · rw [if_neg hscope, if_neg hscope, Outcome.map_bind]
              simp [withoutDocsAll, pure, Except.pure, Except.map, bind, Except.bind]

/-- What is declared at a node does not depend on whether documentation is read. -/
theorem declaredAt_withoutDocs {node : Node} (around : List Node) (forced : Option Visibility)
    (before : List Node)
    (ih : ∀ body, node.child? "body" = some body →
      ReadAlike source path includePrivate body.children) :
    declaredAt ⟨source, path, ⟨false, includePrivate⟩⟩ around forced before node =
      (declaredAt ⟨source, path, ⟨true, includePrivate⟩⟩ around forced before node).map
        withoutDocsAll := by
  unfold declaredAt
  split
  · simp [Except.map, withoutDocsAll]
  · split
    · exact inBody_withoutDocs _ _ ih
    · split
      · exact ofItem_withoutDocs _ _ _ _ ih
      · simp [Except.map, withoutDocsAll]

/-- Without documentation the reader finds the declarations that it finds with it, or is refused
for the same reason. -/
theorem among_withoutDocs (nodes : List Node) : ReadAlike source path includePrivate nodes := by
  induction nodes using Node.bodyInduction with
  | nil =>
      intro around forced before
      rw [among, among]
      simp [Except.map, withoutDocsAll]
  | cons node rest ihBody ihRest =>
      intro around forced before
      rw [among_cons, among_cons, declaredAt_withoutDocs _ _ _ ihBody, Outcome.bind_map,
        Outcome.map_bind]
      refine Outcome.bind_congr fun here => ?_
      rw [ihRest, Outcome.bind_map, Outcome.map_bind]
      refine Outcome.bind_congr fun later => ?_
      simp [withoutDocsAll_append, pure, Except.pure, Except.map]

/-! ## Places -/

/-- Documentation has no part in where items are placed. -/
theorem placeAll_withoutDocsAll (declarations : List Declaration) :
    ∀ h : Hierarchy, placeAll h (withoutDocsAll declarations) =
      ((placeAll h declarations).1.map (Prod.map Item.withoutDocs id),
        (placeAll h declarations).2) := by
  induction declarations using forestInduction with
  | nil =>
      intro h
      rw [withoutDocsAll, placeAll]
      rfl
  | cons item segment members rest ihMembers ihRest =>
      intro h
      have hkind : item.withoutDocs.kind = item.kind := rfl
      have hname : item.withoutDocs.name = item.name := rfl
      rw [withoutDocsAll, placeAll_cons, placeAll_cons, hkind, hname]
      simp only [ihMembers, ihRest, List.map_cons, List.map_append, Prod.map_apply, id_eq]

theorem elements_withoutDocsAll (filePath : String) (declarations : List Declaration) :
    elements filePath (withoutDocsAll declarations) =
      (elements filePath declarations).map Element.withoutDocs := by
  rw [elements_eq, elements_eq, placeAll_withoutDocsAll, List.map_map, List.map_map]
  rfl

end Declaration

/-- Reading a file without documentation gives its elements without documentation, or the same
refusal. -/
theorem elementsOf_withoutDocs (root : Node) :
    elementsOf ⟨source, path, ⟨false, includePrivate⟩⟩ root =
      (elementsOf ⟨source, path, ⟨true, includePrivate⟩⟩ root).map
        (List.map Element.withoutDocs) := by
  unfold elementsOf Declaration.ofRoot
  rw [Declaration.inContainer_eq, Declaration.inContainer_eq, Declaration.among_withoutDocs]
  generalize Declaration.among _ _ _ _ _ = outcome
  cases outcome with
  | error refusal => rfl
  | ok declarations => exact congrArg Except.ok (Declaration.elements_withoutDocsAll _ _)

end CrateAtlas
