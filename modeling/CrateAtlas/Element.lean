import CrateAtlas.Hierarchy
import CrateAtlas.Item.Declaration

/-!
# Elements

An element is an item with its place in the file: identifier, qualified name, parent and
children.  The elements of a file are its declarations in source order, each before its
members.
-/

namespace CrateAtlas

/-- An item with its place in its file. -/
structure Element where
  item : Item
  placement : Placement
  childrenIds : List String
deriving DecidableEq, Repr

namespace Element

/-- The identifier of an element. -/
def id (element : Element) : String :=
  element.placement.id

/-- The kind of an element. -/
def kind (element : Element) : Kind :=
  element.item.kind

/-- The name of an element. -/
def name (element : Element) : String :=
  element.item.name

/-- The qualified name of an element. -/
def qualifiedName (element : Element) : String :=
  element.placement.qualifiedName

/-- The references that an element makes, not yet resolved. -/
def references (file : SourceFile) (element : Element) : List Reference :=
  element.item.usages.map fun usage =>
    { origin := some element.id
      type := usage.type
      text := usage.text
      location := Location.of file.source file.path usage.label
      scope := element.qualifiedName
      target := none }

end Element

namespace Declaration

mutual

/-- Place a declaration and its members: the items with their places, and the hierarchy
afterwards. -/
def place (h : Hierarchy) : Declaration → List (Item × Placement) × Hierarchy
  | mk item segment members =>
      let placement := h.next item.kind item.name
      let inside := (h.place item.kind item.name).enter segment placement.id
      let (below, after) := placeAll inside members
      ((item, placement) :: below, after.close)

/-- Place several declarations one after the other. -/
def placeAll (h : Hierarchy) : List Declaration → List (Item × Placement) × Hierarchy
  | [] => ([], h)
  | declaration :: rest =>
      let (here, after) := place h declaration
      let (later, last) := placeAll after rest
      (here ++ later, last)

end

/-- The elements of a forest of declarations. -/
def elements (filePath : String) (declarations : List Declaration) : List Element :=
  let (placed, h) := placeAll (.start filePath) declarations
  placed.map fun (item, placement) => ⟨item, placement, h.childrenOf placement.id⟩

end Declaration

/-- Fill in the children of elements, once all scopes are closed; an element in whose scope
nothing was placed stays as it is. -/
def Hierarchy.complete (h : Hierarchy) (elements : List Element) :
    Except Fault (List Element) :=
  if h.frames.isEmpty then
    .ok (elements.map fun element =>
      match h.childrenOf element.id with
      | [] => element
      | ids => { element with childrenIds := ids })
  else .error (.scopesOpen h.frames.length h.filePath)

/-- The elements of a file, in source order. -/
def elementsOf (file : SourceFile) (root : Node) : Except Text.Utf8.Refusal (List Element) :=
  (Declaration.ofRoot file root).map (Declaration.elements file.path)

end CrateAtlas
