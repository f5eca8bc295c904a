/-!
# Searching in texts

Occurrences of one list of characters in another: cutting at every occurrence,
cutting at the last one, replacing all of them, and the positions of the first and
the last.  Occurrences are taken from left to right and do not overlap, except for
the last occurrence, which is the one that starts furthest to the right.
-/

namespace CrateAtlas.Text

/-- Cut {lit}`cs` at the occurrences of {lit}`sep`; {lit}`skip` characters of an occurrence
that was already recognised are still to be dropped, and {lit}`piece` holds the current
piece in reverse. -/
def cutFrom (sep : List Char) : (skip : Nat) → (piece : List Char) → List Char → List (List Char)
  | _, piece, [] => [piece.reverse]
  | skip + 1, piece, _ :: cs => cutFrom sep skip piece cs
  | 0, piece, c :: cs =>
      if sep.isPrefixOf (c :: cs) then piece.reverse :: cutFrom sep (sep.length - 1) [] cs
      else cutFrom sep 0 (c :: piece) cs

/-- The pieces of {lit}`cs` between the occurrences of {lit}`sep`. -/
def cut (sep cs : List Char) : List (List Char) :=
  cutFrom sep 0 [] cs

/-- The pieces of a text between the occurrences of {lit}`sep`. -/
def splitOn (sep s : String) : List String :=
  (cut sep.toList s.toList).map String.ofList

/-- Replace the occurrences of {lit}`old`, with the same reading of {lit}`skip`. -/
def substituteFrom (old new : List Char) : (skip : Nat) → List Char → List Char
  | _, [] => []
  | skip + 1, _ :: cs => substituteFrom old new skip cs
  | 0, c :: cs =>
      if old.isPrefixOf (c :: cs) then new ++ substituteFrom old new (old.length - 1) cs
      else c :: substituteFrom old new 0 cs

/-- Replace every occurrence of {lit}`old` by {lit}`new`. -/
def substitute (old new s : String) : String :=
  String.ofList (substituteFrom old.toList new.toList 0 s.toList)

/-- What follows the first occurrence of {lit}`pat`. -/
def afterFirst (pat : List Char) : List Char → Option (List Char)
  | [] => if pat.isEmpty then some [] else none
  | c :: cs =>
      if pat.isPrefixOf (c :: cs) then some ((c :: cs).drop pat.length) else afterFirst pat cs

/-- Position of the last occurrence of {lit}`pat`, where the text given starts at
position {lit}`i`. -/
def lastIndexFrom (pat : List Char) : (i : Nat) → List Char → Option Nat
  | _, [] => none
  | i, c :: cs =>
      match lastIndexFrom pat (i + 1) cs with
      | some j => some j
      | none => if pat.isPrefixOf (c :: cs) then some i else none

/-- Position of the last occurrence of {lit}`pat` in {lit}`cs`. -/
def lastIndex? (pat cs : List Char) : Option Nat :=
  lastIndexFrom pat 0 cs

/-- What stands before and after the last occurrence of {lit}`sep`. -/
def cutLast? (sep cs : List Char) : Option (List Char × List Char) :=
  (lastIndex? sep cs).map fun i => (cs.take i, cs.drop (i + sep.length))

/-- Whether {lit}`pat` occurs in {lit}`s`. -/
def contains (pat s : String) : Bool :=
  (lastIndex? pat.toList s.toList).isSome

/-- Whether {lit}`s` starts with {lit}`start`. -/
def startsWith (start s : String) : Bool :=
  start.toList.isPrefixOf s.toList

end CrateAtlas.Text
