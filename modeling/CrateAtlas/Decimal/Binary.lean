/-!
# Binary floating-point values as exact numbers

A finite double is a signed integer times a power of two.  This file reads that form
off the bits, and goes the other way for a quotient of integers: the double nearest to
the quotient, ties to the even significand.  A quotient from the midpoint between the
largest double and the next power of two on has none.
-/

namespace CrateAtlas.Decimal

/-- A power of two. -/
def twoTo (n : Nat) : Nat :=
  Nat.pow 2 n

/-- A power of ten. -/
def tenTo (n : Nat) : Nat :=
  Nat.pow 10 n

/-- A double, taken apart: finite values are {lit}`significand * 2 ^ exponent`. -/
inductive Binary where
  | finite (negative : Bool) (significand : Nat) (exponent : Int)
  | infinite (negative : Bool)
  | undefined
deriving DecidableEq, Repr

/-- Take a double apart. -/
def Binary.ofFloat (x : Float) : Binary :=
  let bits := x.toBits.toNat
  let negative := bits / twoTo 63 == 1
  let biased := bits / twoTo 52 % twoTo 11
  let fraction := bits % twoTo 52
  if biased = 2047 then
    if fraction = 0 then .infinite negative else .undefined
  else if biased = 0 then .finite negative fraction (-1074)
  else .finite negative (twoTo 52 + fraction) (Int.ofNat biased - 1075)

/-- The double nearest to the quotient of two positive numbers.  The quotient is taken
to sixty binary places or more, with a last bit that tells whether anything is left. -/
def ratioNat (n d : Nat) : Float :=
  let shift : Int := 60 - (Int.ofNat n.log2 - Int.ofNat d.log2)
  let num := n <<< shift.toNat
  let den := d <<< (-shift).toNat
  let quotient := num / den
  let marked := if num % den = 0 then quotient else quotient ||| 1
  (UInt64.ofNat marked).toFloat.scaleB (-shift)

/-- The double nearest to {lit}`a / b` for {lit}`b ≠ 0`. -/
def ratio (a b : Int) : Float :=
  let size := if a = 0 then 0.0 else ratioNat a.natAbs b.natAbs
  if decide (a < 0) != decide (b < 0) then -size else size

/-- The double nearest to an integer. -/
def nearest (a : Int) : Float :=
  ratio a 1

/-- The least size that is too large for a double: the midpoint between the largest double and
the power of two above it, which would round up. -/
def overflow : Nat :=
  twoTo 1024 - twoTo 970

/-- Whether {lit}`a / b` is in the range of doubles, for {lit}`b ≠ 0`. -/
def inRange (a b : Int) : Bool :=
  decide (a.natAbs < overflow * b.natAbs)

/-- The binary logarithm of a positive number.  A number beyond the range of doubles is a
fraction between a half and one times a power of two, whose exponent is added. -/
def log2 (n : Nat) : Float :=
  if inRange n 1 then (nearest n).log2
  else
    let exponent := n.log2 + 1
    (ratioNat n (twoTo exponent)).log2 + nearest exponent

end CrateAtlas.Decimal
