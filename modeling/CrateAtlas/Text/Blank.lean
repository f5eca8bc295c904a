/-!
# White space and lines

A character is blank when it carries the Unicode white-space property or is one
of the four information separators.  This file trims blanks at the ends of a text,
collapses runs of blanks, and cuts a text into lines.

All functions are defined on lists of characters by structural recursion; the
versions on {lit}`String` convert at the ends.
-/

namespace CrateAtlas.Text

/-! ## Blank characters -/

/-- Unicode white space together with the information separators U+001C to U+001F. -/
def isBlank (c : Char) : Bool :=
  let n := c.toNat
  (0x09 ≤ n && n ≤ 0x0D) || (0x1C ≤ n && n ≤ 0x20) || n == 0x85 || n == 0xA0 ||
    n == 0x1680 || (0x2000 ≤ n && n ≤ 0x200A) || n == 0x2028 || n == 0x2029 ||
    n == 0x202F || n == 0x205F || n == 0x3000

@[simp]
theorem isBlank_space : isBlank ' ' = true := by decide

/-- Drop the blanks at the front. -/
def trimStartChars (cs : List Char) : List Char :=
  cs.dropWhile isBlank

/-- Drop the blanks at the back. -/
def trimEndChars (cs : List Char) : List Char :=
  (cs.reverse.dropWhile isBlank).reverse

/-- Drop the blanks at both ends. -/
def trimChars (cs : List Char) : List Char :=
  trimEndChars (trimStartChars cs)

/-- Write every run of blanks as one space; {lit}`afterBlank` says that the character
before the rest was blank. -/
def collapseFrom : (afterBlank : Bool) → List Char → List Char
  | _, [] => []
  | afterBlank, c :: cs =>
      if isBlank c then
        if afterBlank then collapseFrom true cs else ' ' :: collapseFrom true cs
      else
        c :: collapseFrom false cs

/-- Write every run of blanks as one space. -/
def collapseChars (cs : List Char) : List Char :=
  collapseFrom false cs

/-- Drop the blanks at the front of a text. -/
def trimStart (s : String) : String :=
  String.ofList (trimStartChars s.toList)

/-- Drop the blanks at the back of a text. -/
def trimEnd (s : String) : String :=
  String.ofList (trimEndChars s.toList)

/-- Drop the blanks at both ends of a text. -/
def trim (s : String) : String :=
  String.ofList (trimChars s.toList)

/-- Write every run of blanks of a text as one space. -/
def collapse (s : String) : String :=
  String.ofList (collapseChars s.toList)

/-! ## Lines -/

/-- The characters that end a line, carriage return and line feed included. -/
def isLineBreak (c : Char) : Bool :=
  let n := c.toNat
  (0x0A ≤ n && n ≤ 0x0D) || (0x1C ≤ n && n ≤ 0x1E) || n == 0x85 || n == 0x2028 || n == 0x2029

/-- Cut at line breaks, where a carriage return and the line feed after it are one
break; {lit}`line` holds the characters of the current line in reverse.  A break at
the very end opens no further line. -/
def linesFrom : (line : List Char) → List Char → List (List Char)
  | [], [] => []
  | line@(_ :: _), [] => [line.reverse]
  | line, '\r' :: '\n' :: cs => line.reverse :: linesFrom [] cs
  | line, c :: cs =>
      if isLineBreak c then line.reverse :: linesFrom [] cs else linesFrom (c :: line) cs

/-- The lines of a text without their breaks. -/
def lines (s : String) : List (List Char) :=
  linesFrom [] s.toList

/-- The pieces between line feeds; a text has one piece more than line feeds. -/
def lineFeedPieces : (piece : List Char) → List Char → List (List Char)
  | piece, [] => [piece.reverse]
  | piece, c :: cs =>
      if c = '\n' then piece.reverse :: lineFeedPieces [] cs else lineFeedPieces (c :: piece) cs

end CrateAtlas.Text
