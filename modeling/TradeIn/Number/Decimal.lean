import TradeIn.Number.Binary64

/-!
# Decimals of 96 bits

A decimal is `± coefficient / 10 ^ scale` with a coefficient below `2 ^ 96` and at most 28 places. Sums and
products are taken exactly and then fitted into that range by dropping the fewest last digits, with one
rounding to the even neighbour; they fail only when the whole part has no room.

`Decimal.ofFinite64?` reads a binary64 number. Whole numbers are taken exactly; other numbers keep the 15
or 16 digits that their 53-bit significand carries.
-/

namespace TradeIn

/-- A decimal number of at most 96 bits and 28 places. -/
structure Decimal where
  /-- Whether the number has a minus sign; zero may have one. -/
  negative : Bool
  /-- The digits of the number, without sign and point. -/
  coefficient : Nat
  /-- How many of the digits stand after the point. -/
  scale : Nat
  coefficient_lt : coefficient < 2 ^ 96 := by decide
  scale_le : scale ≤ 28 := by decide
  deriving DecidableEq, Repr

namespace Decimal

/-- The whole number zero. -/
def zero : Decimal where
  negative := false
  coefficient := 0
  scale := 0

/-- The whole number one. -/
def one : Decimal where
  negative := false
  coefficient := 1
  scale := 0

instance : Inhabited Decimal := ⟨zero⟩

/-- Whether the number is zero, of either sign. -/
def isZero (x : Decimal) : Bool := x.coefficient == 0

/-- The coefficient with the sign of the number. -/
def signed (x : Decimal) : Int := if x.negative then -(x.coefficient : Int) else x.coefficient

/-- The signed coefficient of the number when it is written with `scale` places, at least its own. -/
def atScale (x : Decimal) (scale : Nat) : Int := x.signed * 10 ^ (scale - x.scale)

/-- A signed 64-bit integer as a decimal. -/
def ofInt64 (n : Int64) : Decimal where
  negative := n < 0
  coefficient := n.toInt.natAbs
  scale := 0
  coefficient_lt := by
    have hlow := Int64.le_toInt n
    have hhigh := Int64.toInt_lt n
    omega

/-- Dropping this many of the last digits brings `coefficient / 10 ^ scale` into the range. -/
def Fits (coefficient scale dropped : Nat) : Prop :=
  divHalfEven coefficient (10 ^ dropped) < 2 ^ 96 ∧ scale - dropped ≤ 28

instance (coefficient scale dropped : Nat) : Decidable (Fits coefficient scale dropped) :=
  inferInstanceAs (Decidable (_ ∧ _))

/-- The decimal nearest to `± coefficient / 10 ^ scale` that drops the fewest digits, a half going to the even
neighbour. There is none if the whole part needs more than 96 bits. -/
def fit? (negative : Bool) (coefficient scale : Nat) : Option Decimal :=
  match h : (List.range (scale + 1)).find? (fun dropped => decide (Fits coefficient scale dropped)) with
  | none => none
  | some dropped =>
    have fits : Fits coefficient scale dropped := by simpa using List.find?_some h
    some ⟨negative, divHalfEven coefficient (10 ^ dropped), scale - dropped, fits.1, fits.2⟩

/-- The product, or none if its whole part needs more than 96 bits. -/
def mul? (x y : Decimal) : Option Decimal :=
  if x.isZero || y.isZero then some zero
  else fit? (x.negative != y.negative) (x.coefficient * y.coefficient) (x.scale + y.scale)

/-- The sum, or none if its whole part needs more than 96 bits. -/
def add? (x y : Decimal) : Option Decimal :=
  if x.isZero then some y
  else if y.isZero then some x
  else
    let scale := max x.scale y.scale
    let sum := x.atScale scale + y.atScale scale
    fit? (sum < 0) sum.natAbs scale

/-- Whether one number is at most the other, by value. -/
def le (x y : Decimal) : Bool :=
  let scale := max x.scale y.scale
  x.atScale scale ≤ y.atScale scale

/-- The larger number by value; the second of two equal ones. -/
def max (x y : Decimal) : Decimal := if x.le y then y else x

/-- The nearest whole number; a half goes away from zero. -/
def round (x : Decimal) : Int :=
  let magnitude : Int := divHalfUp x.coefficient (10 ^ x.scale)
  if x.negative then -magnitude else magnitude

/-- The nearest whole number, held at the ends of the signed 64-bit range when it lies beyond them. -/
def toWholeUnits (x : Decimal) : Int64 :=
  if x.round < Int64.minValue.toInt then Int64.minValue
  else if Int64.maxValue.toInt < x.round then Int64.maxValue
  else Int64.ofInt x.round

/-- Turn `halvings` divisions by two into places after the point: an even coefficient is halved and loses a
place, an odd one is multiplied by five as long as 96 bits have room, and halved downwards after that. -/
def tradeHalvings : (halvings coefficient scale : Nat) → Nat × Nat
  | 0, coefficient, scale => (coefficient, scale)
  | halvings + 1, coefficient, scale =>
    if coefficient % 2 = 0 then tradeHalvings halvings (coefficient / 2) (scale - 1)
    else if 5 * coefficient < 2 ^ 96 then tradeHalvings halvings (5 * coefficient) scale
    else tradeHalvings halvings (coefficient / 2) (scale - 1)

/-- The coefficient divided by ten, a last digit of five or more rounding it up. -/
def dropDigit (coefficient : Nat) : Nat := coefficient / 10 + if 5 ≤ coefficient % 10 then 1 else 0

/-- Drop digits until at most 28 places are left. A coefficient of one digit vanishes. -/
def toTwentyEightPlaces : (coefficient scale : Nat) → Nat × Nat
  | coefficient, 0 => (coefficient, 0)
  | coefficient, scale + 1 =>
    if scale + 1 ≤ 28 then (coefficient, scale + 1)
    else if coefficient / 10 = 0 then (0, 0)
    else toTwentyEightPlaces (dropDigit coefficient) scale

/-- Drop places until the coefficient is below `2 ^ 52`, the precision of a binary64 number. -/
def toBinaryPrecision : (coefficient scale : Nat) → Nat × Nat
  | coefficient, 0 => (coefficient, 0)
  | coefficient, scale + 1 =>
    if coefficient < 2 ^ 52 then (coefficient, scale + 1)
    else toBinaryPrecision (dropDigit coefficient) scale

/-- Drop the zeros at the end of the places. -/
def dropTrailingZeros : (coefficient scale : Nat) → Nat × Nat
  | coefficient, 0 => (coefficient, 0)
  | coefficient, scale + 1 =>
    if coefficient % 10 = 0 then dropTrailingZeros (coefficient / 10) scale
    else (coefficient, scale + 1)

/-- The coefficient and scale that stand for `significand / 2 ^ halvings`. -/
def ofHalvings (significand halvings : Nat) : Nat × Nat :=
  let traded := tradeHalvings halvings significand halvings
  let placed := toTwentyEightPlaces traded.1 traded.2
  let precise := toBinaryPrecision placed.1 placed.2
  dropTrailingZeros precise.1 precise.2

/-- The decimal for a coefficient and a scale that are in range. -/
def mk? (negative : Bool) (digits : Nat × Nat) : Option Decimal :=
  if h : digits.1 < 2 ^ 96 ∧ digits.2 ≤ 28 then some ⟨negative, digits.1, digits.2, h.1, h.2⟩ else none

/-- The decimal that a binary64 number stands for. A whole number is exact or, from `2 ^ 96` on, refused. -/
def ofFinite64? (x : Finite64) : Option Decimal :=
  if x.isZero then mk? x.negative (0, 0)
  else if 0 ≤ x.exponent then mk? x.negative (x.significand * 2 ^ x.exponent.toNat, 0)
  else mk? x.negative (ofHalvings x.significand (-x.exponent).toNat)

/-- The decimal that a binary64 number stands for; infinities and what is not a number have none. -/
def ofBinary64? (x : Binary64) : Option Decimal := x.finite?.bind ofFinite64?

/-- The amount that a binary64 number stands for in a price: a number without a decimal counts as zero. -/
def ofAmount (x : Binary64) : Decimal := (ofBinary64? x).getD zero

/-- The sign if there is one, the whole part, and exactly `scale` digits after the point. -/
def toText (x : Decimal) : String :=
  let sign := if x.negative then "-" else ""
  let whole := toString (x.coefficient / 10 ^ x.scale)
  let places := toString (x.coefficient % 10 ^ x.scale)
  let padding := String.ofList (List.replicate (x.scale - places.length) '0')
  if x.scale = 0 then sign ++ whole else sign ++ whole ++ "." ++ padding ++ places

end Decimal

end TradeIn
