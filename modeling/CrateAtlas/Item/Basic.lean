import CrateAtlas.Item.Docs
import CrateAtlas.Item.Signature
import CrateAtlas.Item.Visibility
import CrateAtlas.Measure.Complexity
import CrateAtlas.Reference.Usage

/-!
# Items

An item is what the source says about one declaration: its name, signature, visibility,
documentation, measures and the names it uses.  Where it sits among the other items is not
part of it.
-/

namespace CrateAtlas

/-- Which items are read, and how much of them. -/
structure ReadOptions where
  includeDocs : Bool
  includePrivate : Bool
deriving DecidableEq, Repr

/-- A source file as it is read: its bytes, its path in the project, and the options. -/
structure SourceFile where
  source : Source
  path : String
  options : ReadOptions

/-- What the source says about one declaration. -/
structure Item where
  kind : Kind
  name : String
  signature : String
  visibility : Visibility
  docs : List String
  attrs : List String
  location : Location
  complexity : Option Int
  measures : Option Complexity
  generics : List String
  usages : List Usage
deriving DecidableEq, Repr

/-- The name of a declaration and the segment that its body adds to the scope. -/
structure ItemName where
  name : String
  segment : String
deriving DecidableEq, Repr

namespace ItemName

/-- The name of an impl block: its self type, after its trait if it has one. -/
def ofImpl (source : Source) (node : Node) : Except Text.Utf8.Refusal (Option ItemName) :=
  match node.child? "type" with
  | none => .ok none
  | some selfType => do
      let type := ScopePath.normalize (← source.text selfType.label)
      match node.child? "trait" with
      | none => return some ⟨type, type⟩
      | some traitNode =>
          let trait := ScopePath.normalize (← source.text traitNode.label)
          return some ⟨trait ++ " for " ++ type, "<" ++ type ++ " as " ++ trait ++ ">"⟩

/-- The name of a declaration, if it has one that is not empty. -/
def ofNode (source : Source) (kind : Kind) (node : Node) :
    Except Text.Utf8.Refusal (Option ItemName) := do
  let found ←
    if kind = .impl then ofImpl source node
    else
      match node.child? "name" with
      | none => .ok none
      | some nameNode => (source.text nameNode.label).map fun name => some ⟨name, name⟩
  return found.filter fun found => found.name != ""

end ItemName

namespace Item

/-- The visibility of a declaration: that of its owner for impl blocks, the one its
container forces on its members, the export attribute for macros, and its own modifier
otherwise. -/
def visibilityOf (source : Source) (forced : Option Visibility) (attrs : List String)
    (kind : Kind) (node : Node) : Except Text.Utf8.Refusal Visibility :=
  if kind = .impl then .ok .inherited
  else
    match forced with
    | some visibility => .ok visibility
    | none =>
        if kind = .macroRules then
          .ok (if attrs.any Visibility.exportsMacro then .pub else .priv)
        else Visibility.ofNode source node

/-- The visibility that a declaration forces on the items in its body. -/
def memberVisibility (visibility : Visibility) (kind : Kind) (node : Node) : Option Visibility :=
  if kind = .trait then some visibility
  else if kind = .impl ∧ (node.child? "trait").isSome then some .inherited
  else none

/-- The generic parameters of a declaration, as written. -/
def genericsOf (source : Source) (node : Node) : Except Text.Utf8.Refusal (List String) :=
  match node.child? "type_parameters" with
  | none => .ok []
  | some parameters =>
      (parameters.namedChildren.filter fun child =>
        !child.isComment && !child.isAttribute).mapM fun child =>
          (source.text child.label).map ScopePath.normalize

/-- The inner documentation of a module. -/
def innerDocs (source : Source) (kind : Kind) (node : Node) :
    Except Text.Utf8.Refusal (List String) :=
  if kind = .mod then
    match node.child? "body" with
    | some body => Docs.inner source body
    | none => .ok []
  else .ok []

/-- Read a declaration with a name, notes before it, and a visibility; {lit}`around` lists
the nodes around it from the inside out. -/
def read (file : SourceFile) (around : List Node) (kind : Kind) (name : String)
    (notes : List Docs.Note) (visibility : Visibility) (node : Node) :
    Except Text.Utf8.Refusal Item := do
  let inner ← innerDocs file.source kind node
  let generics ← genericsOf file.source node
  let usages ← Usage.ofItem file.source around kind node
  return {
    kind := kind
    name := name
    signature := Signature.render file.source node
    visibility := visibility
    docs := if file.options.includeDocs then notes.flatMap Docs.Note.lines ++ inner else []
    attrs := notes.filterMap Docs.Note.attr?
    location := Location.of file.source file.path node.label
    complexity := Complexity.value file.source kind node
    measures := Complexity.measured file.source kind node
    generics := generics
    usages := usages }

end Item

end CrateAtlas
