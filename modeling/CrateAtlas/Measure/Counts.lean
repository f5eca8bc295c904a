import CrateAtlas.Kind

/-!
# Counts by name

A table of counts has one entry for each name that was counted, in increasing order of
names.
-/

namespace CrateAtlas

/-- The sum of several numbers. -/
def addUp (numbers : List Int) : Int :=
  numbers.foldr (fun n rest => n + rest) 0

/-- Numbers by name, in increasing order of names. -/
abbrev Counts := List (String × Int)

namespace Counts

/-- Add a number to the count of a name. -/
def add (name : String) (n : Int) : Counts → Counts
  | [] => [(name, n)]
  | (other, m) :: rest =>
      if name = other then (other, m + n) :: rest
      else if name < other then (name, n) :: (other, m) :: rest
      else (other, m) :: add name n rest

/-- Add up numbers by name. -/
def sum (entries : List (String × Int)) : Counts :=
  entries.foldl (fun counts entry => counts.add entry.1 entry.2) []

/-- The sum of all counts. -/
def total (counts : Counts) : Int :=
  addUp (counts.map Prod.snd)

/-- The count of a kind, zero if there is none. -/
def count (counts : Counts) (kind : Kind) : Int :=
  match counts.find? fun entry => entry.1 == kind.name with
  | some entry => entry.2
  | none => 0

end Counts

end CrateAtlas
