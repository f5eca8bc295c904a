import CrateAtlas.Yaml.Implicit

/-!
# YAML scalars

A text is written plain if nothing in it could be taken for something else, between single
quotes if it holds no special characters, and between double quotes with escapes
otherwise.  Lines are folded at a space once they have become longer than eighty
characters.
-/

namespace CrateAtlas.Yaml

/-! ## Analysis -/

/-- The characters that end a line. -/
def isBreak (c : Char) : Bool :=
  c == '\n' || c.toNat == 0x85 || c.toNat == 0x2028 || c.toNat == 0x2029

/-- The characters after which an indicator counts. -/
def isWhite (c : Char) : Bool :=
  c == ' ' || c == '\t' || c == '\r' || c.toNat == 0 || isBreak c

/-- Characters that only double quotes can hold. -/
def isSpecial (c : Char) : Bool :=
  !(c == '\n' || (' ' ≤ c && c ≤ '~'))

/-- Characters that cannot stand first in a plain scalar. -/
def isLeadingIndicator (c : Char) : Bool :=
  ['#', ',', '[', ']', '\x7b', '\x7d', '&', '*', '!', '|', '>', '\x27', '\x22', '%', '@',
    '\x60'].contains c

/-- Whether what follows is white or nothing. -/
def whiteNext : List Char → Bool
  | [] => true
  | c :: _ => isWhite c

/-- Whether a character in the middle of a plain scalar would be taken for a mark. -/
def hasInnerIndicator : (afterWhite : Bool) → List Char → Bool
  | _, [] => false
  | afterWhite, c :: cs =>
      (c == ':' && whiteNext cs) || (c == '#' && afterWhite) || hasInnerIndicator (isWhite c) cs

/-- Whether a text would be taken for something else if it were written plain. -/
def hasIndicator (cs : List Char) : Bool :=
  ['-', '-', '-'].isPrefixOf cs || ['.', '.', '.'].isPrefixOf cs ||
    match cs with
    | [] => false
    | c :: rest =>
        isLeadingIndicator c ||
          ((c == '?' || c == ':' || c == '-') && whiteNext rest) ||
          hasInnerIndicator (isWhite c) rest

/-- Whether a space stands right before or right after a break. -/
def spaceAtBreak : List Char → Bool
  | a :: b :: rest =>
      (a == ' ' && isBreak b) || (isBreak a && b == ' ') || spaceAtBreak (b :: rest)
  | _ => false

/-- Whether a text starts or ends with a space or a break. -/
def whiteEnds (cs : List Char) : Bool :=
  let edge (c : Option Char) : Bool :=
    match c with
    | some c => c == ' ' || isBreak c
    | none => false
  edge cs.head? || edge cs.getLast?

/-- How a text is written. -/
inductive Style where
  | plain
  | single
  | double
deriving DecidableEq, Repr

/-- The style of a text. -/
def styleOf (s : String) : Style :=
  let cs := s.toList
  if spaceAtBreak cs || cs.any isSpecial then .double
  else if whiteEnds cs || cs.any isBreak || hasIndicator cs || hasMeaning s then .single
  else .plain

/-! ## Writing -/

/-- The length of a line after which it is folded. -/
def bestWidth : Nat := 80

/-- A new line with an indentation. -/
def newLine (indent : Nat) : List Char :=
  '\n' :: List.replicate indent ' '

/-- A stretch of a text. -/
inductive Run where
  | word (cs : List Char)
  | spaces (count : Nat)
  | breaks (count : Nat)
deriving DecidableEq, Repr

/-- Put a character in front of stretches. -/
def Run.cons (c : Char) : List Run → List Run
  | .word cs :: rest =>
      if c = ' ' then .spaces 1 :: .word cs :: rest
      else if isBreak c then .breaks 1 :: .word cs :: rest
      else .word (c :: cs) :: rest
  | .spaces n :: rest =>
      if c = ' ' then .spaces (n + 1) :: rest
      else if isBreak c then .breaks 1 :: .spaces n :: rest
      else .word [c] :: .spaces n :: rest
  | .breaks n :: rest =>
      if c = ' ' then .spaces 1 :: .breaks n :: rest
      else if isBreak c then .breaks (n + 1) :: rest
      else .word [c] :: .breaks n :: rest
  | [] => if c = ' ' then [.spaces 1] else if isBreak c then [.breaks 1] else [.word [c]]

/-- The stretches of a text. -/
def Run.ofChars (cs : List Char) : List Run :=
  cs.foldr Run.cons []

/-- A word between single quotes has its apostrophes doubled. -/
def wordText (quoted : Bool) (cs : List Char) : List Char :=
  if quoted then cs.flatMap fun c => if c = '\x27' then ['\x27', '\x27'] else [c] else cs

/-- Write stretches from a column on.  A single space inside a line that is too long becomes
a new line; a break becomes an empty line. -/
def writeRuns (indent : Nat) (quoted : Bool) : (column : Nat) → (first : Bool) → List Run →
    List Char
  | _, _, [] => []
  | column, first, run :: rest =>
      match run with
      | .word cs =>
          let text := wordText quoted cs
          text ++ writeRuns indent quoted (column + text.length) false rest
      | .spaces n =>
          if n = 1 ∧ bestWidth < column ∧ first = false ∧ rest.isEmpty = false then
            newLine indent ++ writeRuns indent quoted indent false rest
          else List.replicate n ' ' ++ writeRuns indent quoted (column + n) false rest
      | .breaks n =>
          List.replicate n '\n' ++ newLine indent ++ writeRuns indent quoted indent false rest

/-- The letter that stands for a character after a backslash. -/
def escapeLetter? (c : Char) : Option Char :=
  match c.toNat with
  | 0x00 => some '0'
  | 0x07 => some 'a'
  | 0x08 => some 'b'
  | 0x09 => some 't'
  | 0x0A => some 'n'
  | 0x0B => some 'v'
  | 0x0C => some 'f'
  | 0x0D => some 'r'
  | 0x1B => some 'e'
  | 0x22 => some '\x22'
  | 0x5C => some '\\'
  | 0x85 => some 'N'
  | 0xA0 => some '_'
  | 0x2028 => some 'L'
  | 0x2029 => some 'P'
  | _ => none

/-- The upper-case hexadecimal digits of {lit}`n`, filled with zeros up to {lit}`width`. -/
def hexDigits (width n : Nat) : List Char :=
  let digits := (Nat.toDigits 16 n).map Char.toUpper
  List.replicate (width - digits.length) '0' ++ digits

/-- The escape of a character. -/
def escape (c : Char) : List Char :=
  let n := c.toNat
  match escapeLetter? c with
  | some letter => ['\\', letter]
  | none =>
      if n < 0x100 then '\\' :: 'x' :: hexDigits 2 n
      else if n < 0x10000 then '\\' :: 'u' :: hexDigits 4 n
      else '\\' :: 'U' :: hexDigits 8 n

/-- Characters that are written with a backslash between double quotes. -/
def needsEscape (c : Char) : Bool :=
  c == '\x22' || c == '\\' || !(' ' ≤ c && c ≤ '~')

/-- A folded line goes on with a backslash if its first character is a space. -/
def foldMark (c : Option Char) : List Char :=
  if c = some ' ' then ['\\'] else []

/-- Write a text between double quotes from a column on.  {lit}`pending` characters, in
reverse, are read and not yet written, and {lit}`first` says that none was read before.  A
line that is too long is folded at a space or next to an escape, but never after the first
character or before the last. -/
def writeDouble (indent : Nat) : (column : Nat) → (pending : List Char) → (first : Bool) →
    List Char → List Char
  | _, pending, _, [] => pending.reverse
  | column, pending, first, c :: cs =>
      let inside := first = false ∧ cs.isEmpty = false
      if needsEscape c then
        let text := pending.reverse ++ escape c
        if inside ∧ bestWidth + 1 < column + text.length then
          let mark := foldMark cs.head?
          text ++ '\\' :: newLine indent ++ mark ++
            writeDouble indent (indent + mark.length) [] false cs
        else text ++ writeDouble indent (column + text.length) [] false cs
      else if inside ∧ (c = ' ' ∨ pending.isEmpty) ∧ bestWidth < column + pending.length then
        let mark := foldMark (some c)
        pending.reverse ++ '\\' :: newLine indent ++ mark ++
          writeDouble indent (indent + mark.length) [c] false cs
      else writeDouble indent column (c :: pending) false cs

/-- A text as a scalar that starts at a column; lines that follow are indented. -/
def scalar (indent column : Nat) (s : String) : String :=
  let cs := s.toList
  String.ofList <|
    match styleOf s with
    | .plain => writeRuns indent false column true (Run.ofChars cs)
    | .single =>
        '\x27' :: writeRuns indent true (column + 1) true (Run.ofChars cs) ++ ['\x27']
    | .double => '\x22' :: writeDouble indent (column + 1) [] true cs ++ ['\x22']

end CrateAtlas.Yaml
