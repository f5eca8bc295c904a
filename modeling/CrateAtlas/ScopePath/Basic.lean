import CrateAtlas.Text.Blank
import CrateAtlas.Text.Search

/-!
# Scope paths

A scope path names a declaration by its enclosing scopes, as in
{lit}`net::<Point<f64> as Shape>::area`.  The separator counts only outside angle
brackets; an arrow does not close a bracket.

Main definitions:

- {lit}`join` glues segments together and drops the empty ones,
- {lit}`split` cuts at the separators outside angle brackets,
- {lit}`withoutGenerics` and {lit}`withoutSegmentGenerics` drop generic arguments.
-/

namespace CrateAtlas.ScopePath

/-- The separator between two segments. -/
def separator : List Char := [':', ':']

/-! ## Joining and splitting -/

/-- Join the segments that are not empty. -/
def joinChars (segments : List (List Char)) : List Char :=
  separator.intercalate (segments.filter fun segment => !segment.isEmpty)

/-- Join the segments that are not empty. -/
def join (segments : List String) : String :=
  String.ofList (joinChars (segments.map String.toList))

/-- The bracket depth after a character: an opening bracket raises it, and a closing one
that does not end an arrow lowers it. -/
def depthAfter (previous : Char) (depth : Nat) (c : Char) : Nat :=
  if c = '<' then depth + 1
  else if c = '>' ∧ previous ≠ '-' then depth - 1
  else depth

/-- Cut at the separators at bracket depth zero; {lit}`segment` holds the current segment
in reverse and {lit}`previous` is the character before the rest. -/
def segmentsFrom : (previous : Char) → (depth : Nat) → (segment : List Char) → List Char →
    List (List Char)
  | _, _, segment, [] => [segment.reverse]
  | _, 0, segment, ':' :: ':' :: cs => segment.reverse :: segmentsFrom ':' 0 [] cs
  | previous, depth, segment, c :: cs =>
      segmentsFrom c (depthAfter previous depth c) (c :: segment) cs

/-- The segments of a path that are not empty. -/
def splitChars (cs : List Char) : List (List Char) :=
  (segmentsFrom ' ' 0 [] cs).filter fun segment => !segment.isEmpty

/-- The segments of a path that are not empty. -/
def split (path : String) : List String :=
  (splitChars path.toList).map String.ofList

/-! ## Generic arguments -/

/-- The characters outside angle brackets; the brackets of a group are dropped with it. -/
def outsideFrom : (previous : Char) → (depth : Nat) → List Char → List Char
  | _, _, [] => []
  | previous, depth, c :: cs =>
      let after := depthAfter previous depth c
      if depth = 0 ∧ after = 0 then c :: outsideFrom c after cs else outsideFrom c after cs

/-- Drop every group in angle brackets, then the blanks around each segment and the
segments left empty. -/
def withoutGenericsChars (cs : List Char) : List Char :=
  joinChars ((Text.cut separator (outsideFrom ' ' 0 cs)).map Text.trimChars)

/-- Drop every group in angle brackets. -/
def withoutGenerics (path : String) : String :=
  String.ofList (withoutGenericsChars path.toList)

/-- Drop the generic arguments of a segment; a segment that starts with a bracket, such as
{lit}`<T as Trait>`, stays as it is. -/
def plainSegment (segment : List Char) : List Char :=
  if segment.head? = some '<' then segment else withoutGenericsChars segment

/-- Drop the generic arguments segment by segment. -/
def withoutSegmentGenericsChars (cs : List Char) : List Char :=
  joinChars ((splitChars cs).map plainSegment)

/-- Drop the generic arguments segment by segment. -/
def withoutSegmentGenerics (path : String) : String :=
  String.ofList (withoutSegmentGenericsChars path.toList)

/-! ## The last separator -/

/-- What stands before and after the last separator. -/
def splitLast? (path : String) : Option (String × String) :=
  (Text.cutLast? separator path.toList).map fun (before, after) =>
    (String.ofList before, String.ofList after)

/-- The path before the last separator, empty if there is none. -/
def parent (path : String) : String :=
  match splitLast? path with
  | some (before, _) => before
  | none => ""

/-- Whether a path is {lit}`root` or continues it after a separator. -/
def within (path root : String) : Bool :=
  path == root || (root.toList ++ separator).isPrefixOf path.toList

end CrateAtlas.ScopePath
