import CrateAtlas.Item.Basic

/-!
# Declarations

The declarations of a file form a forest: the body of a module, an impl block or a trait
holds the declarations of its members.  The items of a foreign block belong to the scope
around the block.  An item that is dropped takes everything below it along.
-/

namespace CrateAtlas

/-- A declaration: an item, the segment that its body adds to the scope, and its members. -/
inductive Declaration where
  | mk (item : Item) (segment : String) (members : List Declaration)

namespace Declaration

mutual

/-- The declarations among the children of a container.  {lit}`around` lists the nodes around
them from the inside out, {lit}`forced` is the visibility that the container forces on
them, and {lit}`before` lists the named siblings already passed, nearest first. -/
def among (file : SourceFile) (around : List Node) (forced : Option Visibility) :
    (before : List Node) → List Node → Except Text.Utf8.Refusal (List Declaration)
  | _, [] => .ok []
  | before, node :: rest => do
      let here ←
        if !node.isNamed then .ok []
        else if node.isForeignBlock then inForeignBlock file around forced node
        else
          match node.itemKind? with
          | some kind => ofItem file around forced before kind node
          | none => .ok []
      let later ← among file around forced (if node.isNamed then node :: before else before) rest
      return here ++ later
termination_by structural _ nodes => nodes

/-- The declarations in a container. -/
def inContainer (file : SourceFile) (around : List Node) (forced : Option Visibility) :
    Node → Except Text.Utf8.Refusal (List Declaration)
  | node@(.mk _ children) => among file (node :: around) forced [] children
termination_by structural node => node

/-- The declarations in the first node under the field of a body. -/
def inBody (file : SourceFile) (around : List Node) (forced : Option Visibility) :
    List Node → Except Text.Utf8.Refusal (List Declaration)
  | [] => .ok []
  | node :: rest =>
      if node.label.field == "body" then inContainer file around forced node
      else inBody file around forced rest
termination_by structural nodes => nodes

/-- The declarations in a foreign block. -/
def inForeignBlock (file : SourceFile) (around : List Node) (forced : Option Visibility) :
    Node → Except Text.Utf8.Refusal (List Declaration)
  | node@(.mk _ children) => inBody file (node :: around) forced children
termination_by structural node => node

/-- The declaration of an item: none if it has no name, or is private and private items are
left out. -/
def ofItem (file : SourceFile) (around : List Node) (forced : Option Visibility)
    (before : List Node) (kind : Kind) : Node → Except Text.Utf8.Refusal (List Declaration)
  | node@(.mk _ children) => do
      match ← ItemName.ofNode file.source kind node with
      | none => return []
      | some named =>
          let notes ← Docs.notesBefore file.source before node
          let visibility ←
            Item.visibilityOf file.source forced (notes.filterMap Docs.Note.attr?) kind node
          if visibility = .priv ∧ file.options.includePrivate = false then return []
          else
            let item ← Item.read file around kind named.name notes visibility node
            let members ←
              if kind.opensScope then
                inBody file (node :: around) (Item.memberVisibility visibility kind node) children
              else .ok []
            return [mk item named.segment members]
termination_by structural node => node

end

/-- The declarations of a file. -/
def ofRoot (file : SourceFile) (root : Node) : Except Text.Utf8.Refusal (List Declaration) :=
  inContainer file [] none root

end Declaration

end CrateAtlas
