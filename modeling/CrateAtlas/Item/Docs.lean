import CrateAtlas.Node.Grammar
import CrateAtlas.Node.Source
import CrateAtlas.Text.Blank
import CrateAtlas.Text.Search

/-!
# Documentation and attributes

Documentation comes from comments with a third slash, star or exclamation mark and from
{lit}`doc` attributes.  An item takes the run of comments and attributes right before it,
in which every node ends at most one row above the start of the next; a module also takes
the inner documentation at the front of its body.
-/

namespace CrateAtlas.Docs

open Node

/-! ## Comments -/

/-- How documentation of the item that follows begins. -/
def outerMarks : List String := ["///", "/**"]

/-- How documentation of the enclosing item begins. -/
def innerMarks : List String := ["//!", "/*!"]

/-- How comments begin that only look like documentation. -/
def plainMarks : List String := ["////", "/***", "/**/"]

/-- Whether a comment is documentation with one of the marks. -/
def isDoc (marks : List String) (comment : String) : Bool :=
  let stripped := Text.trim comment
  !(plainMarks.any fun mark => Text.startsWith mark stripped) &&
    marks.any fun mark => Text.startsWith mark stripped

/-- Drop the mark at the front of a line of documentation; a block opens on the first line
only. -/
def dropMark (first : Bool) (line : List Char) : List Char :=
  if ['/', '/', '/'].isPrefixOf line || ['/', '/', '!'].isPrefixOf line then line.drop 3
  else if first && (['/', '*', '*'].isPrefixOf line || ['/', '*', '!'].isPrefixOf line) then
    line.drop 3
  else line

/-- Drop the end of a block and the blanks before it. -/
def dropBlockEnd (line : List Char) : List Char :=
  if ['/', '*'].isPrefixOf line.reverse then
    Text.trimEndChars (line.take (line.length - 2))
  else line

/-- Drop the star at the front of a line inside a block and the blanks after it. -/
def dropStar : List Char → List Char
  | '*' :: rest => Text.trimStartChars rest
  | line => line

/-- A line of documentation without its marks. -/
def cleanLine (first : Bool) (line : List Char) : List Char :=
  dropStar (dropBlockEnd (Text.trimChars (dropMark first (Text.trimChars line))))

/-- The lines of a documentation comment without marks, blank lines left out. -/
def cleanComment (comment : String) : List String :=
  match Text.lineFeedPieces [] comment.toList with
  | [] => []
  | line :: rest =>
      let cleaned := cleanLine true line :: rest.map (cleanLine false)
      (cleaned.filter fun l => !l.isEmpty).map String.ofList

/-! ## Attributes -/

/-- What follows a token at the front. -/
def afterToken? (token cs : List Char) : Option (List Char) :=
  if token.isPrefixOf cs then some (cs.drop token.length) else none

/-- Drop one character {lit}`c` at the front, if there is one. -/
def dropOne (c : Char) : List Char → List Char
  | [] => []
  | d :: rest => if c = d then rest else d :: rest

/-- What follows the opening quote of a {lit}`doc` attribute. -/
def afterDocQuote? (attr : List Char) : Option (List Char) := do
  let rest ← afterToken? ['#'] attr
  let rest ← afterToken? ['['] (dropOne '!' rest)
  let rest ← afterToken? ['d', 'o', 'c'] (Text.trimStartChars rest)
  let rest ← afterToken? ['='] (Text.trimStartChars rest)
  let rest := dropOne 'r' (Text.trimStartChars rest)
  afterToken? ['\x22'] (rest.dropWhile (· == '#'))

/-- What stands before the closing quote of an attribute, given the reverse of the rest. -/
def beforeQuote? (reversed : List Char) : Option (List Char) := do
  let rest ← afterToken? [']'] reversed
  let rest := (rest.dropWhile Text.isBlank).dropWhile (· == '#')
  let body ← afterToken? ['\x22'] rest
  return body.reverse

/-- The text of a {lit}`doc` attribute as it stands between its quotes. -/
def docBody? (attr : String) : Option (List Char) := do
  let rest ← afterDocQuote? (Text.trimChars attr.toList)
  beforeQuote? rest.reverse

/-- Read the escapes of a quote and of a line feed, the quotes first. -/
def unescape (body : List Char) : List Char :=
  Text.substituteFrom ['\\', 'n'] ['\n'] 0 (Text.substituteFrom ['\\', '\x22'] ['\x22'] 0 body)

/-- The lines of a {lit}`doc` attribute, blank lines left out; none for other attributes. -/
def attributeLines? (attr : String) : Option (List String) :=
  (docBody? attr).map fun body =>
    (((Text.lineFeedPieces [] (unescape body)).map Text.trimChars).filter
      fun line => !line.isEmpty).map String.ofList

/-! ## What stands before an item -/

/-- The row on which a node ends; a line comment that takes its line feed along ends on the
row before. -/
def endRow (source : Source) (label : Label) : Nat :=
  let row := source.row label.stop
  if source.column label.stop = 0 ∧ source.row label.start < row then row - 1 else row

/-- The run of comments and attributes that belongs to an item: {lit}`before` lists the
named siblings before it, nearest first, and {lit}`row` is the row on which it starts. -/
def attachedRun (source : Source) : (row : Nat) → (before : List Node) → List Node
  | _, [] => []
  | row, node :: rest =>
      if node.isComment || node.isAttribute then
        if endRow source node.label + 1 < row then []
        else node :: attachedRun source (source.row node.label.start) rest
      else []

/-- What a node before an item contributes to it. -/
inductive Note where
  | docs (lines : List String)
  | attr (text : String)
deriving DecidableEq, Repr

/-- The documentation lines of a note. -/
def Note.lines : Note → List String
  | docs lines => lines
  | attr _ => []

/-- The attribute of a note. -/
def Note.attr? : Note → Option String
  | docs _ => none
  | attr text => some text

/-- Read a comment or an attribute before an item. -/
def readNote (source : Source) (node : Node) : Except Text.Utf8.Refusal Note := do
  let text ← source.text node.label
  if node.isAttribute then
    match attributeLines? text with
    | some lines => return .docs lines
    | none => return .attr (Text.trim (Text.collapse text))
  else if isDoc outerMarks text then return .docs (cleanComment text)
  else return .docs []

/-- The notes before an item, in source order; they are read from the nearest on. -/
def notesBefore (source : Source) (before : List Node) (item : Node) :
    Except Text.Utf8.Refusal (List Note) := do
  let notes ← (attachedRun source (source.row item.label.start) before).mapM (readNote source)
  return notes.reverse

/-! ## What stands at the front of a body -/

/-- The inner documentation at the front of a list of nodes. -/
def innerAmong (source : Source) : List Node → Except Text.Utf8.Refusal (List String)
  | [] => .ok []
  | node :: rest => do
      let text ← source.text node.label
      if node.isComment then
        let later ← innerAmong source rest
        return (if isDoc innerMarks text then cleanComment text else []) ++ later
      else if node.isInnerAttribute then
        let later ← innerAmong source rest
        return (attributeLines? text).getD [] ++ later
      else return []

/-- The inner documentation of a module body. -/
def inner (source : Source) (body : Node) : Except Text.Utf8.Refusal (List String) :=
  innerAmong source body.namedChildren

end CrateAtlas.Docs
