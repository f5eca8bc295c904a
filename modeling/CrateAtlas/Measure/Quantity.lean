import CrateAtlas.Decimal.Binary

/-!
# Quantities

Measures that are not counts are doubles, computed from exact numbers.  A number beyond the
range of doubles has no double, a quotient may lie beyond it although its parts do not, and
only positive numbers have logarithms; such a quantity is refused with its cause.
-/

namespace CrateAtlas

/-- Why a quantity has no value. -/
inductive QuantityFault where
  | numberTooLarge
  | quotientTooLarge
  | zeroDivisor
  | noLogarithm
deriving DecidableEq, Repr

/-- The wording of the refusal of a quantity. -/
def QuantityFault.message : QuantityFault → String
  | numberTooLarge => "int too large to convert to float"
  | quotientTooLarge => "integer division result too large for a float"
  | zeroDivisor => "division by zero"
  | noLogarithm => "math domain error"

/-- A double, or the reason why there is none. -/
abbrev Quantity := Except QuantityFault Float

namespace Quantity

/-- A number as a quantity. -/
def ofInt (n : Int) : Quantity :=
  if Decimal.inRange n 1 then .ok (Decimal.nearest n) else .error .numberTooLarge

/-- The quotient of two numbers. -/
def quotient (a b : Int) : Quantity :=
  if b = 0 then .error .zeroDivisor
  else if Decimal.inRange a b then .ok (Decimal.ratio a b)
  else .error .quotientTooLarge

/-- The binary logarithm of a number. -/
def log2 (n : Int) : Quantity :=
  if n ≤ 0 then .error .noLogarithm else .ok (Decimal.log2 n.toNat)

/-- A number of symbols, each of which is one of {lit}`choices`, in bits. -/
def bits (symbols choices : Int) : Quantity := do
  let each ← log2 choices
  let count ← ofInt symbols
  return count * each

/-- The mean of a total over a number of values, zero if there are none. -/
def mean (total count : Int) : Quantity :=
  if count = 0 then .ok 0.0 else quotient total count

end Quantity

end CrateAtlas
