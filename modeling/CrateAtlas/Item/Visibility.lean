import CrateAtlas.Node.Grammar
import CrateAtlas.Node.Source
import CrateAtlas.Text.Blank
import CrateAtlas.Text.Search
import CrateAtlas.Text.Word

/-!
# Visibility

An item is visible everywhere, within a restriction, only in its module, or wherever its
owner is.
-/

namespace CrateAtlas

/-- Who may see an item. -/
inductive Visibility where
  | pub
  | restricted (restriction : String)
  | priv
  | inherited
deriving DecidableEq, Repr

namespace Visibility

/-- The name of a visibility in reports. -/
def name : Visibility → String
  | pub => "public"
  | restricted _ => "restricted"
  | priv => "private"
  | inherited => "inherited"

/-- The restriction as written, if there is one. -/
def restriction? : Visibility → Option String
  | restricted text => some text
  | _ => none

/-- Read a visibility modifier. -/
def ofModifier (text : String) : Visibility :=
  let text := Text.trim (Text.collapse text)
  if text = "pub" then pub
  else
    restricted
      (Text.substitute " )" ")" (Text.substitute "( " "(" (Text.substitute "pub (" "pub(" text)))

/-- The visibility that an item's own modifier gives it. -/
def ofNode (source : Source) (node : Node) : Except Text.Utf8.Refusal Visibility :=
  match node.children.find? Node.isVisibility with
  | some modifier => (source.text modifier.label).map ofModifier
  | none => .ok priv

/-- Whether an attribute exports a macro from its crate. -/
def exportsMacro (attr : String) : Bool :=
  match attr.toList with
  | '#' :: '[' :: rest =>
      let rest := Text.trimStartChars rest
      let name := "macro_export".toList
      name.isPrefixOf rest &&
        match rest.drop name.length with
        | [] => true
        | c :: _ => !Text.isWordChar c
  | _ => false

end Visibility

end CrateAtlas
