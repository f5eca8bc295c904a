import CrateAtlas.Text.Blank
import CrateAtlas.Text.Search

/-!
# Lines of code and comments

A line is blank when nothing is left of it after trimming, a comment when it lies in an
open block or starts with a comment mark, and code otherwise.  A block stays open after a
line on which the last opening mark stands to the right of the last closing one.
-/

namespace CrateAtlas

/-- What a line holds. -/
inductive LineClass where
  | blank
  | comment
  | code
deriving DecidableEq, Repr

namespace LineClass

/-- The mark that opens a block comment. -/
def blockOpen : List Char := ['/', '*']

/-- The mark that closes a block comment. -/
def blockClose : List Char := ['*', '/']

/-- Whether a stretch of a line leaves a block open. -/
def leavesOpen (cs : List Char) : Bool :=
  match Text.lastIndex? blockOpen cs, Text.lastIndex? blockClose cs with
  | some opened, some closed => closed < opened
  | some _, none => true
  | none, _ => false

/-- Classify a trimmed line, given whether a block is open before it; the second component
says whether one is open after it. -/
def ofLine (inBlock : Bool) (line : List Char) : LineClass × Bool :=
  if line.isEmpty then (blank, inBlock)
  else if inBlock then
    match Text.afterFirst blockClose line with
    | some rest => (comment, leavesOpen rest)
    | none => (comment, true)
  else if ['/', '/'].isPrefixOf line then (comment, false)
  else if blockOpen.isPrefixOf line then (comment, leavesOpen line)
  else (code, leavesOpen line)

/-- Classify lines one after the other. -/
def ofLines : (inBlock : Bool) → List (List Char) → List LineClass
  | _, [] => []
  | inBlock, line :: rest =>
      let (here, after) := ofLine inBlock (Text.trimChars line)
      here :: ofLines after rest

/-- The classes of the lines of a text. -/
def ofText (text : String) : List LineClass :=
  ofLines false (Text.lines text)

end LineClass

end CrateAtlas
