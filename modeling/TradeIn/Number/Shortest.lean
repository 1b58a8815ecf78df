import TradeIn.Number.Binary64

/-!
# The fewest digits that read back

Among the decimals that round to a given binary64 number, `Finite64.shortest` takes one on the coarsest grid of
powers of ten, and of two on that grid the nearer one, a tie going to the even digit. Everything is exact
arithmetic on natural numbers.
-/

namespace TradeIn

/-- The number `coefficient * 10 ^ exponent`. -/
structure DecimalDigits where
  coefficient : Nat
  exponent : Int
  deriving DecidableEq, Repr

namespace DecimalDigits

/-- Move the zeros at the end of the coefficient into the exponent. -/
def dropZeros : (limit coefficient : Nat) → (exponent : Int) → DecimalDigits
  | 0, coefficient, exponent => ⟨coefficient, exponent⟩
  | limit + 1, coefficient, exponent =>
    if coefficient % 10 = 0 then dropZeros limit (coefficient / 10) (exponent + 1)
    else ⟨coefficient, exponent⟩

/-- The digits of the coefficient. -/
def text (d : DecimalDigits) : String := toString d.coefficient

/-- The power of ten of the first digit. -/
def leadingExponent (d : DecimalDigits) : Int := d.exponent + (d.text.length : Int) - 1

end DecimalDigits

namespace Finite64

/-- How far below the number, in quarters of its grid, the decimals that still round to it reach: the numbers
below a power of two lie twice as close. -/
def quartersBelow (x : Finite64) : Nat :=
  if x.significand = 2 ^ 52 ∧ 1 < x.exponentField then 1 else 2

/-- The number `coefficient * 10 ^ grid` rounds to the magnitude of `x`. The ends of the interval belong to it
when the significand is even. -/
def readsBack (x : Finite64) (grid : Int) (coefficient : Nat) : Bool :=
  let unit := 2 ^ x.exponent.toNat * 10 ^ (-grid).toNat
  let candidate := 4 * coefficient * (2 ^ (-x.exponent).toNat * 10 ^ grid.toNat)
  let low := (4 * x.significand - x.quartersBelow) * unit
  let high := (4 * x.significand + 2) * unit
  if x.significand % 2 = 0 then low ≤ candidate && candidate ≤ high else low < candidate && candidate < high

/-- The multiple of `10 ^ grid` nearest to the magnitude among the two around it that round to it, if any. -/
def onGrid? (x : Finite64) (grid : Int) : Option DecimalDigits :=
  let num := x.significand * 2 ^ x.exponent.toNat * 10 ^ (-grid).toNat
  let den := 2 ^ (-x.exponent).toNat * 10 ^ grid.toNat
  let below := num / den
  let nearest := divHalfEven num den
  let other := if nearest = below then below + 1 else below
  if x.readsBack grid nearest then some ⟨nearest, grid⟩
  else if x.readsBack grid other then some ⟨other, grid⟩
  else none

/-- A power of ten above the magnitude. -/
def coarsestGrid (x : Finite64) : Int :=
  ((x.significand.log2 : Int) + x.exponent + 1) * 30103 / 100000 + 1

/-- The fewest digits that read back as the magnitude of the number; zero is the digit zero. Twenty grids from the
coarsest one on are enough: seventeen digits tell any two numbers apart. -/
def shortest (x : Finite64) : DecimalDigits :=
  if x.isZero then ⟨0, 0⟩
  else
    match (List.range 20).findSome? (fun (step : Nat) => x.onGrid? (x.coarsestGrid - step)) with
    | some digits => DecimalDigits.dropZeros 20 digits.coefficient digits.exponent
    | none => ⟨0, 0⟩

end Finite64

end TradeIn
