import CrateAtlas.Node.Grammar
import CrateAtlas.Node.Source
import CrateAtlas.Text.Blank

/-!
# Signatures

The signature of a declaration is its text up to the body, on one line and without
comments: {lit}`pub fn add(a: i32, b: i32) -> i32`.
-/

namespace CrateAtlas.Signature

open Node

/-- Bodies that are no part of a signature; the fields of a tuple struct are. -/
def isBody (node : Node) : Bool :=
  ["block", "declaration_list", "field_declaration_list", "enum_variant_list"].contains node.kind

/-- Where the signature of a declaration ends: a macro after its name, a constant before
its value, everything else before its body. -/
def stop (node : Node) : Nat :=
  if node.kind == "macro_definition" then
    match node.child? "name" with
    | some name => name.label.stop
    | none => node.label.stop
  else if node.kind == "const_item" || node.kind == "static_item" then
    match node.child? "value" with
    | some value => value.label.start
    | none => node.label.stop
  else
    match node.child? "body" with
    | some body => if isBody body then body.label.start else node.label.stop
    | none => node.label.stop

/-- The children of a node up to the first one that starts at {lit}`stop` or later. -/
def childrenBefore (stop : Nat) (node : Node) : List Node :=
  node.children.takeWhile fun child => decide (child.label.start < stop)

/-- The children of a node that may hold comments, without the comments among them. -/
def uncommented (stop : Nat) (node : Node) : List Node :=
  (childrenBefore stop node).filter fun child => !child.isComment

theorem sizeAll_uncommented_lt (stop : Nat) (node : Node) :
    sizeAll (uncommented stop node) < node.size := by
  have hle : sizeAll (uncommented stop node) ≤ sizeAll node.children :=
    sizeAll_le_of_sublist (List.filter_sublist.trans (List.takeWhile_sublist _))
  cases node with
  | mk label children =>
      rw [children_mk] at hle
      rw [size_mk]
      omega

/-- The spans of the outermost comments below a stack of nodes that start before {lit}`stop`, cut
off there.  The children of the uppermost node go onto the stack, the last one on top. -/
def commentSpans (stop : Nat) : (stack : List Node) → List (Nat × Nat)
  | [] => []
  | node :: rest =>
      ((childrenBefore stop node).filter isComment).map
          (fun comment => (comment.label.start, min comment.label.stop stop)) ++
        commentSpans stop ((uncommented stop node).reverse ++ rest)
termination_by stack => sizeAll stack
decreasing_by
  have hlt := sizeAll_uncommented_lt stop node
  rw [sizeAll_append, sizeAll_reverse, sizeAll_cons]
  omega

/-- The order of spans by start, then by end. -/
def spanLe (a b : Nat × Nat) : Bool :=
  a.1 < b.1 || (a.1 == b.1 && a.2 ≤ b.2)

/-- The bytes from a position up to {lit}`stop` that lie outside the spans, cut where a
span is. -/
def piecesFrom (source : Source) (stop : Nat) : (position : Nat) → List (Nat × Nat) →
    List (List UInt8)
  | position, [] => [source.slice position stop]
  | position, (first, last) :: rest =>
      source.slice position first :: piecesFrom source stop (max position last) rest

/-- The bytes of a signature, a space for each comment. -/
def bytes (source : Source) (node : Node) : List UInt8 :=
  let spans := (commentSpans (stop node) [node]).mergeSort spanLe
  [0x20].intercalate (piecesFrom source (stop node) node.label.start spans)

/-- Drop the semicolons, equality signs and blanks at the end. -/
def dropTail (cs : List Char) : List Char :=
  (cs.reverse.dropWhile fun c => c == ';' || c == '=' || Text.isBlank c).reverse

/-- The signature of a declaration. -/
def render (source : Source) (node : Node) : String :=
  let text := Text.Utf8.decodeLenient (bytes source node)
  String.ofList (dropTail (Text.trimChars (Text.collapseChars text.toList)))

end CrateAtlas.Signature
