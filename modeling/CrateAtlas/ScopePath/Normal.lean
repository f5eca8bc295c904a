import CrateAtlas.Text.Blank

/-!
# The normal form of a written path

A path or type is written in many ways; its normal form has single spaces, none around
a separator or an opening angle bracket, none before a closing one, and exactly one
after a comma.
-/

namespace CrateAtlas.ScopePath

/-- Write {lit}`written` for every occurrence of {lit}`token`, dropping the blanks before it,
and those after it when {lit}`eatAfter` is set.

{lit}`held` is the run of blanks read last, in reverse, {lit}`skip` the number of characters
of a recognised token still to be read, and {lit}`eating` says that blanks are dropped. -/
def tightenFrom (token written : List Char) (eatAfter : Bool) :
    (held : List Char) → (skip : Nat) → (eating : Bool) → List Char → List Char
  | held, _, _, [] => held.reverse
  | held, skip + 1, eating, _ :: cs => tightenFrom token written eatAfter held skip eating cs
  | held, 0, eating, c :: cs =>
      if Text.isBlank c then
        if eating then tightenFrom token written eatAfter [] 0 true cs
        else tightenFrom token written eatAfter (c :: held) 0 false cs
      else if token.isPrefixOf (c :: cs) then
        written ++ tightenFrom token written eatAfter [] (token.length - 1) eatAfter cs
      else
        held.reverse ++ c :: tightenFrom token written eatAfter [] 0 false cs

/-- Write {lit}`written` for every occurrence of {lit}`token` and the blanks around it. -/
def tighten (token written : List Char) (eatAfter : Bool) (cs : List Char) : List Char :=
  tightenFrom token written eatAfter [] 0 false cs

/-- The normal form of a written path, as characters. -/
def normalizeChars (cs : List Char) : List Char :=
  let single := Text.collapseChars (Text.trimChars cs)
  let joined := tighten [':', ':'] [':', ':'] true single
  let opened := tighten ['<'] ['<'] true joined
  let closed := tighten ['>'] ['>'] false opened
  Text.trimChars (tighten [','] [',', ' '] true closed)

/-- The normal form of a written path or type. -/
def normalize (path : String) : String :=
  String.ofList (normalizeChars path.toList)

end CrateAtlas.ScopePath
