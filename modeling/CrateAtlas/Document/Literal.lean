import CrateAtlas.Decimal.Shortest
import CrateAtlas.Document.Basic
import CrateAtlas.Text.Quoted

/-!
# Documents in messages

A message shows a value as a literal: texts are quoted, numbers are written in the fewest
digits, and lists and mappings are spelled out.
-/

namespace CrateAtlas

/-- A key that is no text as a literal. -/
def OddKey.literal : OddKey → String
  | null => "None"
  | bool value => if value then "True" else "False"
  | int value => toString value
  | real value => Decimal.shortestText value

namespace Document

/-- A key as a literal. -/
def keyLiteral : String ⊕ OddKey → String
  | .inl key => Text.quoted key
  | .inr key => key.literal

mutual

/-- A document as a literal. -/
def literal : Document → String
  | null => "None"
  | bool value => if value then "True" else "False"
  | int value => toString value
  | real value => Decimal.shortestText value
  | text value => Text.quoted value
  | list items => "[" ++ literals items ++ "]"
  | mapping entries => "\x7b" ++ entryLiterals entries ++ "\x7d"
  | mixed front key value back =>
      "\x7b" ++ entryLiterals front ++ (if front.isEmpty then "" else ", ") ++ key.literal ++ ": " ++
        literal value ++ laterLiterals back ++ "\x7d"

/-- The items of a list, separated by commas. -/
def literals : List Document → String
  | [] => ""
  | [item] => literal item
  | item :: next :: rest => literal item ++ ", " ++ literals (next :: rest)

/-- The entries of a mapping, separated by commas. -/
def entryLiterals : List (String × Document) → String
  | [] => ""
  | [(key, value)] => Text.quoted key ++ ": " ++ literal value
  | (key, value) :: next :: rest =>
      Text.quoted key ++ ": " ++ literal value ++ ", " ++ entryLiterals (next :: rest)

/-- Further entries of a mapping, each after a comma. -/
def laterLiterals : List ((String ⊕ OddKey) × Document) → String
  | [] => ""
  | (key, value) :: rest => ", " ++ keyLiteral key ++ ": " ++ literal value ++ laterLiterals rest

end

end Document

end CrateAtlas
