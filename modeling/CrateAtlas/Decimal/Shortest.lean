import CrateAtlas.Decimal.Binary

/-!
# Shortest decimal texts

The decimal with the fewest digits that reads back as a given double, nearest to it
among those.  The reals that round to {lit}`m * 2 ^ e` form an interval around it; for
one digit, two digits and so on, the two decimals next to the value are tried.
-/

namespace CrateAtlas.Decimal

/-- A decimal {lit}`digits * 10 ^ exponent`. -/
structure Scientific where
  digits : Nat
  exponent : Int
deriving DecidableEq, Repr

/-- The interval of the reals that round to one double, as numerators over a common
denominator; the ends belong to it when the significand is even. -/
structure Interval where
  low : Nat
  value : Nat
  high : Nat
  denominator : Nat
  closed : Bool

/-- The interval around {lit}`m * 2 ^ e`; below a power of two the neighbour is nearer. -/
def Interval.around (m : Nat) (e : Int) : Interval :=
  let scale := twoTo e.toNat
  { low := (if m = twoTo 52 ∧ -1074 < e then 4 * m - 1 else 4 * m - 2) * scale
    value := 4 * m * scale
    high := (4 * m + 2) * scale
    denominator := 4 * twoTo (-e).toNat
    closed := m % 2 = 0 }

/-- Whether {lit}`d * 10 ^ k` lies in the interval. -/
def Interval.holds (i : Interval) (d : Nat) (k : Int) : Bool :=
  let num := d * tenTo k.toNat * i.denominator
  let scale := tenTo (-k).toNat
  if i.closed then i.low * scale ≤ num && num ≤ i.high * scale
  else i.low * scale < num && num < i.high * scale

/-- Of the two decimals next to the value on the grid of step {lit}`10 ^ k`, the nearest
that lies in the interval. -/
def Interval.onGrid (i : Interval) (k : Int) : Option Nat :=
  let num := i.value * tenTo (-k).toNat
  let den := i.denominator * tenTo k.toNat
  let below := num / den
  let twice := 2 * (num % den)
  let nearer := if twice < den ∨ (twice = den ∧ below % 2 = 0) then below else below + 1
  let other := if nearer = below then below + 1 else below
  if i.holds nearer k then some nearer
  else if i.holds other k then some other
  else none

/-- The coarsest grid with a decimal in the interval, starting from the step
{lit}`10 ^ k`. -/
def Interval.search (i : Interval) : (fuel : Nat) → (k : Int) → Scientific
  | 0, k => ⟨i.value * tenTo (-k).toNat / (i.denominator * tenTo k.toNat), k⟩
  | fuel + 1, k =>
      match i.onGrid k with
      | some d => if d = 0 then i.search fuel (k - 1) else ⟨d, k⟩
      | none => i.search fuel (k - 1)

/-- Strip the trailing zeros of the digits. -/
def Scientific.reduced : (fuel : Nat) → Scientific → Scientific
  | 0, s => s
  | fuel + 1, s =>
      if s.digits ≠ 0 ∧ s.digits % 10 = 0 then reduced fuel ⟨s.digits / 10, s.exponent + 1⟩ else s

/-- The shortest decimal that reads back as {lit}`m * 2 ^ e`. -/
def shortest (m : Nat) (e : Int) : Scientific :=
  ((Interval.around m e).search 700 310).reduced 20

/-- The exponents, of the first digit, that are written positionally. -/
def positional (exponent : Int) : Bool :=
  -4 ≤ exponent && exponent < 16

/-- A positive decimal as text: positional with at least one place, or with an exponent
of at least two digits. -/
def Scientific.render (s : Scientific) : String :=
  let digits := Nat.toDigits 10 s.digits
  let lead := s.exponent + Int.ofNat digits.length - 1
  if positional lead then
    if 0 ≤ s.exponent then
      String.ofList (digits ++ List.replicate s.exponent.toNat '0') ++ ".0"
    else
      let after := (-s.exponent).toNat
      let filled := List.replicate (after + 1 - digits.length) '0' ++ digits
      let point := filled.length - after
      String.ofList (filled.take point ++ '.' :: filled.drop point)
  else
    let size := toString lead.natAbs
    let mark := (if lead < 0 then "e-" else "e+") ++ (if size.length < 2 then "0" ++ size else size)
    match digits with
    | [] => mark
    | [d] => String.ofList [d] ++ mark
    | d :: rest => String.ofList (d :: '.' :: rest) ++ mark

/-- A double in the fewest digits that read back. -/
def shortestText (x : Float) : String :=
  match Binary.ofFloat x with
  | .undefined => "nan"
  | .infinite negative => if negative then "-inf" else "inf"
  | .finite negative significand exponent =>
      let size := if significand = 0 then "0.0" else (shortest significand exponent).render
      if negative then "-" ++ size else size

end CrateAtlas.Decimal
