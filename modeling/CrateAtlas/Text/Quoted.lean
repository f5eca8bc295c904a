import CrateAtlas.Text.Printable

/-!
# Quoted texts

A text shown in a message stands between quotes.  The quote is the apostrophe unless
the text holds an apostrophe and no double quote.  The quote itself, the backslash and
every character without a visible form are written with a backslash.
-/

namespace CrateAtlas.Text

/-- The lower-case hexadecimal digits of {lit}`n`, filled with zeros up to {lit}`width`. -/
def hexPadded (width n : Nat) : List Char :=
  let digits := Nat.toDigits 16 n
  List.replicate (width - digits.length) '0' ++ digits

/-- The written form of one character between the quotes {lit}`quote`. -/
def escapeChar (quote c : Char) : List Char :=
  let n := c.toNat
  if c = quote ∨ c = '\\' then ['\\', c]
  else if c = '\n' then ['\\', 'n']
  else if c = '\r' then ['\\', 'r']
  else if c = '\t' then ['\\', 't']
  else if isPrintable c then [c]
  else if n < 0x100 then '\\' :: 'x' :: hexPadded 2 n
  else if n < 0x10000 then '\\' :: 'u' :: hexPadded 4 n
  else '\\' :: 'U' :: hexPadded 8 n

/-- The quote chosen for a text. -/
def quoteFor (cs : List Char) : Char :=
  if '\x27' ∈ cs ∧ '\x22' ∉ cs then '\x22' else '\x27'

/-- A text between quotes, with escapes. -/
def quoted (s : String) : String :=
  let quote := quoteFor s.toList
  String.ofList (quote :: s.toList.flatMap (escapeChar quote) ++ [quote])

end CrateAtlas.Text
