/-!
# The shortest decimal that reads back

A floating-point number stands for all reals that round to it. Among the decimals in
that interval the one on the coarsest decimal grid is written, and of two on the same
grid the nearer one. Everything is computed in whole numbers.
-/
namespace DisplayList

/-- The decimal `digits · 10 ^ exponent`. -/
structure Decimal where
  digits : Nat
  exponent : Int
  deriving DecidableEq, Repr

/-- A positive number and the ends of the interval of reals that round to it, all three
counted in units of `2 ^ exponent`. -/
structure RoundingInterval where
  low : Nat
  value : Nat
  high : Nat
  exponent : Int
  /-- Whether the ends round to the number too. -/
  closed : Bool
  deriving DecidableEq, Repr

namespace RoundingInterval

/-- The interval of the finite single-precision number with these exponent and fraction
bits. In units of a quarter of the last place it reaches two to either side, but only one
below a power of two, where the numbers lie closer, unless they are the smallest ones. -/
def ofFields (exponent fraction : Nat) : RoundingInterval :=
  let mantissa := if exponent = 0 then fraction else fraction + 8388608
  { low := 4 * mantissa - (if fraction = 0 ∧ 1 < exponent then 1 else 2)
    value := 4 * mantissa
    high := 4 * mantissa + 2
    exponent := (max exponent 1 : Int) - 152
    closed := mantissa % 2 = 0 }

/-- An exponent of ten such that no number of the interval reaches the power above it. -/
def topExponent (i : RoundingInterval) : Int :=
  (i.value.log2 + 1 + i.exponent) * 30103 / 100000 + 1

/-- What `n` units amount to, in a measure that makes them and the steps of the grid of
multiples of `10 ^ ten` whole numbers. -/
def scaled (i : RoundingInterval) (ten : Int) (n : Nat) : Nat :=
  n * Nat.pow 2 i.exponent.toNat * Nat.pow 10 (-ten).toNat

/-- One step of that grid in the same measure. -/
def gridStep (i : RoundingInterval) (ten : Int) : Nat :=
  Nat.pow 10 ten.toNat * Nat.pow 2 (-i.exponent).toNat

/-- Whether the multiple `n` of `10 ^ ten` rounds to the number. -/
def contains (i : RoundingInterval) (ten : Int) (n : Nat) : Bool :=
  let here := n * i.gridStep ten
  if i.closed then i.scaled ten i.low ≤ here && here ≤ i.scaled ten i.high
  else i.scaled ten i.low < here && here < i.scaled ten i.high

/-- The multiple of `10 ^ ten` in the interval that is nearest to the number; the upper
one of two that are equally near. Only the two neighbours of the number are tried. -/
def onGrid? (i : RoundingInterval) (ten : Int) : Option Decimal :=
  let step := i.gridStep ten
  let exact := i.scaled ten i.value
  let below := exact / step
  let above := below + 1
  let upward := above * step - exact ≤ exact - below * step
  match i.contains ten below, i.contains ten above with
  | true, true => some ⟨if upward then above else below, ten⟩
  | true, false => some ⟨below, ten⟩
  | false, true => some ⟨above, ten⟩
  | false, false => none

/-- How many grids are tried. Nine digits always suffice in single precision. -/
def gridCount : Nat := 16

/-- The shortest decimal in the interval. -/
def shortest? (i : RoundingInterval) : Option Decimal :=
  (List.range gridCount).findSome? fun (n : Nat) => i.onGrid? (i.topExponent - n)

end RoundingInterval

end DisplayList
