import CrateAtlas.Decimal.Binary

/-!
# Fixed-point texts

Measures are written with six places, rounded from the exact value; a value halfway
between two such texts goes to the one with the even last digit.
-/

namespace CrateAtlas.Decimal

/-- The quotient rounded to the nearest integer, a half going to the even neighbour. -/
def roundDiv (n d : Nat) : Nat :=
  let quotient := n / d
  let twice := 2 * (n % d)
  if twice < d then quotient
  else if d < twice then quotient + 1
  else if quotient % 2 = 0 then quotient else quotient + 1

/-- Decimal digits of {lit}`n`, filled with zeros up to {lit}`width`. -/
def digitsPadded (width n : Nat) : String :=
  let digits := Nat.toDigits 10 n
  String.ofList (List.replicate (width - digits.length) '0' ++ digits)

/-- The number of places of a measure. -/
def places : Nat := 6

/-- A double with six places. -/
def fixed (x : Float) : String :=
  match Binary.ofFloat x with
  | .undefined => "nan"
  | .infinite negative => if negative then "-inf" else "inf"
  | .finite negative significand exponent =>
      let scaled := significand * tenTo places
      let units := roundDiv (scaled * twoTo exponent.toNat) (twoTo (-exponent).toNat)
      let size :=
        toString (units / tenTo places) ++ "." ++ digitsPadded places (units % tenTo places)
      if negative then "-" ++ size else size

end CrateAtlas.Decimal
