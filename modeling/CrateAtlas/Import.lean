import CrateAtlas.Node.Grammar
import CrateAtlas.Node.Source
import CrateAtlas.ScopePath.Basic
import CrateAtlas.ScopePath.Normal

/-!
# Imports

A use declaration at the top level of a file imports names by a tree of paths.  Its
expansion has one record for every leaf of the tree, from left to right:
{lit}`use std::{fmt, io::Read as R, collections::*};` gives the name {lit}`fmt` of
{lit}`std`, the name {lit}`Read` of {lit}`std::io` under the alias {lit}`R`, and everything
in {lit}`std::collections`.
-/

namespace CrateAtlas

/-- One member of a use declaration.  A record that imports everything lists no names. -/
structure ImportRecord where
  modulePath : String
  names : List String
  isGlob : Bool
  asName : Option String
  isReexport : Bool
  line : Int
  names_eq_nil : isGlob = true → names = [] := by simp
deriving DecidableEq, Repr

namespace ImportRecord

/-- A record cannot import everything and list names. -/
structure GlobWithNames where
deriving DecidableEq, Repr

/-- The wording of the refusal of such a record. -/
def GlobWithNames.message (_ : GlobWithNames) : String :=
  "glob imports cannot list imported names"

/-- A record of given parts, unless it imports everything and lists names. -/
def make (modulePath : String) (names : List String) (isGlob : Bool) (asName : Option String)
    (isReexport : Bool) (line : Int) : Except GlobWithNames ImportRecord :=
  if h : isGlob = true → names = [] then
    .ok { modulePath, names, isGlob, asName, isReexport, line, names_eq_nil := h }
  else .error ⟨⟩

/-- The name under which a member of a record is known in its file. -/
def localName (record : ImportRecord) (name : String) : String :=
  match record.asName with
  | some asName => if asName = "" then name else asName
  | none => name

end ImportRecord

/-! ## Expanding a use tree -/

/-- What all records of one use declaration share. -/
structure UseSite where
  line : Nat
  isReexport : Bool
deriving DecidableEq, Repr

namespace UseSite

/-- The record of a leaf with a path, in a group with a base path; {lit}`self` in a group
names the group itself. -/
def named (site : UseSite) (base path : String) (asName : Option String) : ImportRecord :=
  let full := if path = "self" ∧ base ≠ "" then base else ScopePath.join [base, path]
  let (modulePath, name) := (ScopePath.splitLast? full).getD ("", full)
  { modulePath := modulePath
    names := [name]
    isGlob := false
    asName := asName
    isReexport := site.isReexport
    line := site.line }

/-- The record that imports everything in a module. -/
def glob (site : UseSite) (modulePath : String) : ImportRecord where
  modulePath := modulePath
  names := []
  isGlob := true
  asName := none
  isReexport := site.isReexport
  line := site.line

/-- The normal form of the path under a label. -/
def path (source : Source) (label : Label) : Except Text.Utf8.Refusal String :=
  (source.text label).map ScopePath.normalize

/-- The path of a group or a glob: that of a child, if there is one, after the base. -/
def extend (source : Source) (base : String) :
    Option Node → Except Text.Utf8.Refusal String
  | some child => (path source child.label).map fun text => ScopePath.join [base, text]
  | none => .ok base

/-- The record of a renamed leaf, if it has a path. -/
def renamed (site : UseSite) (source : Source) (base : String) (node : Node) :
    Except Text.Utf8.Refusal (List ImportRecord) :=
  match node.child? "path" with
  | none => .ok []
  | some leaf => do
      let text ← path source leaf.label
      match node.child? "alias" with
      | some newName =>
          let name ← path source newName.label
          return [site.named base text (some name)]
      | none => return [site.named base text none]

mutual

/-- The records of a use tree in a group with a base path. -/
def expand (site : UseSite) (source : Source) (base : String) :
    Node → Except Text.Utf8.Refusal (List ImportRecord)
  | node@(.mk label children) =>
      if node.isComment then .ok []
      else if node.isPathLeaf || node.kind == "scoped_identifier" then
        (path source label).map fun text => [site.named base text none]
      else if node.kind == "use_as_clause" then site.renamed source base node
      else if node.kind == "use_wildcard" then
        (extend source base (node.namedChildren.find? fun child => !child.isComment)).map
          fun text => [site.glob text]
      else if node.kind == "scoped_use_list" then do
        let group ← extend source base (node.child? "path")
        expandGroup site source group children
      else if node.kind == "use_list" then expandAll site source base children
      else .ok []

/-- The records of the first node that stands under the field of a group's list. -/
def expandGroup (site : UseSite) (source : Source) (base : String) :
    List Node → Except Text.Utf8.Refusal (List ImportRecord)
  | [] => .ok []
  | node :: rest =>
      if node.label.field == "list" then expand site source base node
      else expandGroup site source base rest

/-- The records of the named nodes of a group. -/
def expandAll (site : UseSite) (source : Source) (base : String) :
    List Node → Except Text.Utf8.Refusal (List ImportRecord)
  | [] => .ok []
  | node :: rest => do
      let here ← if node.isNamed then expand site source base node else .ok []
      let later ← expandAll site source base rest
      return here ++ later

end

/-- What the records of a use declaration share. -/
def ofNode (source : Source) (node : Node) : UseSite where
  line := source.row node.label.start + 1
  isReexport := node.namedChildren.any Node.isVisibility

end UseSite

/-! ## The imports of a file -/

/-- A use declaration with the records it expands to. -/
structure UseDeclaration where
  label : Label
  records : List ImportRecord
deriving DecidableEq, Repr

namespace UseDeclaration

/-- Expand one node, unless it is no use declaration or has no argument. -/
def ofNode (source : Source) (node : Node) :
    Except Text.Utf8.Refusal (Option UseDeclaration) :=
  if node.isUse then
    match node.child? "argument" with
    | some argument =>
        ((UseSite.ofNode source node).expand source "" argument).map fun records =>
          some ⟨node.label, records⟩
    | none => .ok none
  else .ok none

/-- The use declarations at the top level of a file. -/
def ofRoot (source : Source) (root : Node) : Except Text.Utf8.Refusal (List UseDeclaration) :=
  (root.namedChildren.mapM (ofNode source)).map fun found => found.filterMap id

end UseDeclaration

/-- The import records of a file, in source order. -/
def importsOf (source : Source) (root : Node) : Except Text.Utf8.Refusal (List ImportRecord) :=
  (UseDeclaration.ofRoot source root).map fun declarations =>
    declarations.flatMap UseDeclaration.records

end CrateAtlas
