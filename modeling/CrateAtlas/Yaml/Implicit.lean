/-!
# Plain scalars with a meaning

In YAML a text without quotes may denote a truth value, a number, nothing, a date or one
of two special keys.  Such a text has to be quoted to be read back as text.  All of them
are made of ASCII characters.
-/

namespace CrateAtlas.Yaml

/-- An ASCII digit. -/
def isDigit (c : Char) : Bool :=
  '0' ≤ c && c ≤ '9'

/-- A digit or the underscore that groups digits. -/
def isDigitOrGroup (c : Char) : Bool :=
  isDigit c || c == '_'

/-- Drop a sign at the front. -/
def dropSign : List Char → List Char
  | '+' :: rest => rest
  | '-' :: rest => rest
  | cs => cs

/-- Words that denote truth values. -/
def isTruthWord (s : String) : Bool :=
  ["yes", "Yes", "YES", "no", "No", "NO", "true", "True", "TRUE", "false", "False", "FALSE",
    "on", "On", "ON", "off", "Off", "OFF"].contains s

/-- Words that denote nothing. -/
def isNullWord (s : String) : Bool :=
  ["~", "null", "Null", "NULL", ""].contains s

/-- A part of a number to base sixty: one digit, or two of which the first is below six. -/
def isSixtieth : List Char → Bool
  | [d] => isDigit d
  | [c, d] => isDigit c && c ≤ '5' && isDigit d
  | _ => false

/-- Cut at colons; {lit}`piece` holds the current piece in reverse. -/
def colonPieces : (piece : List Char) → List Char → List (List Char)
  | piece, [] => [piece.reverse]
  | piece, c :: cs =>
      if c = ':' then piece.reverse :: colonPieces [] cs else colonPieces (c :: piece) cs

/-- A number to base sixty with at least two parts; {lit}`leading` accepts the first. -/
def isSexagesimal (leading : List Char → Bool) (cs : List Char) : Bool :=
  match colonPieces [] cs with
  | first :: second :: rest => leading first && (second :: rest).all isSixtieth
  | _ => false

/-- A digit followed by digits and groups. -/
def isDigits : List Char → Bool
  | d :: rest => isDigit d && rest.all isDigitOrGroup
  | [] => false

/-- A number that does not start with zero. -/
def isLeadingNumber (cs : List Char) : Bool :=
  isDigits cs && cs.head? != some '0'

/-- A hexadecimal digit or the underscore. -/
def isHexOrGroup (c : Char) : Bool :=
  isDigitOrGroup c || ('a' ≤ c && c ≤ 'f') || ('A' ≤ c && c ≤ 'F')

/-- Integers: binary, octal, decimal, hexadecimal and to base sixty. -/
def isInteger (cs : List Char) : Bool :=
  let size := dropSign cs
  match size with
  | ['0'] => true
  | '0' :: 'b' :: rest => !rest.isEmpty && rest.all fun c => c == '0' || c == '1' || c == '_'
  | '0' :: 'x' :: rest => !rest.isEmpty && rest.all isHexOrGroup
  | '0' :: rest => rest.all fun c => ('0' ≤ c && c ≤ '7') || c == '_'
  | _ => isLeadingNumber size || isSexagesimal isLeadingNumber size

/-- What follows the digits after a point: nothing, or an exponent with a sign. -/
def isExponent : List Char → Bool
  | [] => true
  | mark :: sign :: rest =>
      (mark == 'e' || mark == 'E') && (sign == '+' || sign == '-') && !rest.isEmpty &&
        rest.all isDigit
  | _ => false

/-- Digits, groups and an exponent, as they follow a point. -/
def isFraction (cs : List Char) : Bool :=
  isExponent (cs.dropWhile isDigitOrGroup)

/-- Numbers with a point. -/
def isReal (cs : List Char) : Bool :=
  let size := dropSign cs
  let whole := size.takeWhile (· != '.')
  match size.drop whole.length with
  | '.' :: after =>
      (isDigits whole && isFraction after) ||
        (isSexagesimal isDigits whole && after.all isDigitOrGroup) ||
        (whole.isEmpty && ["inf", "Inf", "INF"].contains (String.ofList after)) ||
        (cs.head? == some '.' &&
          (["nan", "NaN", "NAN"].contains (String.ofList after) ||
            (match after with
            | d :: rest => isDigit d && isFraction rest
            | [] => false)))
  | _ => false

/-- Cut between one and {lit}`most` digits off the front, as many as there are. -/
def takeDigits? (most : Nat) (cs : List Char) : Option (List Char) :=
  let digits := (cs.take most).takeWhile isDigit
  if digits.isEmpty then none else some (cs.drop digits.length)

/-- Cut exactly {lit}`count` digits off the front. -/
def takeExactly? (count : Nat) (cs : List Char) : Option (List Char) :=
  if ((cs.take count).takeWhile isDigit).length = count then some (cs.drop count) else none

/-- Cut a character off the front. -/
def takeChar? (c : Char) : List Char → Option (List Char)
  | d :: rest => if c = d then some rest else none
  | [] => none

/-- A space or a tab. -/
def isGap (c : Char) : Bool :=
  c == ' ' || c == '\t'

/-- A zone: nothing, the letter Z, or a signed number of hours, with minutes or without. -/
def isZone (cs : List Char) : Bool :=
  match cs.dropWhile isGap with
  | [] => cs.isEmpty
  | ['Z'] => true
  | sign :: rest =>
      (sign == '+' || sign == '-') &&
        match takeDigits? 2 rest with
        | some [] => true
        | some (':' :: minutes) => takeExactly? 2 minutes == some []
        | _ => false

/-- The mark between a date and a time, dropped: a letter T or some gaps. -/
def dropTimeMark? : List Char → Option (List Char)
  | 'T' :: rest => some rest
  | 't' :: rest => some rest
  | c :: rest => if isGap c then some (rest.dropWhile isGap) else none
  | [] => none

/-- A fraction of a second, dropped. -/
def dropSecondFraction : List Char → List Char
  | '.' :: rest => rest.dropWhile isDigit
  | cs => cs

/-- A date, or a date with a time. -/
def isTimestamp (cs : List Char) : Bool :=
  let date := do
    let rest ← takeChar? '-' (← takeExactly? 4 cs)
    let rest ← takeChar? '-' (← takeExactly? 2 rest)
    takeExactly? 2 rest
  let time := do
    let rest ← takeChar? '-' (← takeExactly? 4 cs)
    let rest ← takeChar? '-' (← takeDigits? 2 rest)
    let rest ← dropTimeMark? (← takeDigits? 2 rest)
    let rest ← takeChar? ':' (← takeDigits? 2 rest)
    let rest ← takeChar? ':' (← takeExactly? 2 rest)
    let rest ← takeExactly? 2 rest
    return dropSecondFraction rest
  date == some [] ||
    match time with
    | some rest => isZone rest
    | none => false

/-- Whether a plain text denotes something other than itself. -/
def hasMeaning (s : String) : Bool :=
  let cs := s.toList
  isTruthWord s || isNullWord s || s == "<<" || s == "=" || isInteger cs || isReal cs ||
    isTimestamp cs

end CrateAtlas.Yaml
