/-!
# Sorted ranges of code points

Properties of characters are kept as sorted arrays of disjoint ranges, which are searched
by halving.
-/

namespace CrateAtlas.Text

/-- Search a sorted array of disjoint ranges for {lit}`n` between two positions by halving. -/
def inRangesBetween (ranges : Array (Nat × Nat)) (n : Nat) : (fuel low high : Nat) → Bool
  | 0, _, _ => false
  | fuel + 1, low, high =>
      if low < high then
        let middle := (low + high) / 2
        match ranges[middle]? with
        | none => false
        | some (first, last) =>
            if n < first then inRangesBetween ranges n fuel low middle
            else if last < n then inRangesBetween ranges n fuel (middle + 1) high
            else true
      else false

/-- Whether {lit}`n` lies in one of the sorted ranges. -/
def inRanges (ranges : Array (Nat × Nat)) (n : Nat) : Bool :=
  inRangesBetween ranges n ranges.size 0 ranges.size

end CrateAtlas.Text
