import TradeIn.Number.Binary64
import TradeIn.Text.Digits

/-!
# The leading digits of a decimal

A number in a JSON text is read from its leading digits, as many as 64 bits hold: `LeadingDigits.ofDigits` collects
them from left to right, and `LeadingDigits.toBinary64` rounds them to a binary64 number and then multiplies or divides
that number by a power of ten, which is a binary64 number too. Each of these steps rounds, so the result is not always
the number nearest to the decimal: it may be a neighbour of it.
-/

namespace TradeIn

namespace Finite64

/-- The product with the binary64 number nearest to a power of ten, rounded. The number must not be zero. -/
def timesPowerOfTen (x : Finite64) (power : Nat) : Binary64 :=
  match Binary64.ofScientific false 1 power with
  | .finite y =>
    let exponent := x.exponent + y.exponent
    .ofRatio x.negative (x.significand * y.significand * 2 ^ exponent.toNat) (2 ^ (-exponent).toNat)
  | _ => .infinite x.negative

/-- The quotient by the binary64 number nearest to a power of ten, rounded. -/
def overPowerOfTen (x : Finite64) (power : Nat) : Binary64 :=
  match Binary64.ofScientific false 1 power with
  | .finite y =>
    let exponent := x.exponent - y.exponent
    .ofRatio x.negative (x.significand * 2 ^ exponent.toNat) (y.significand * 2 ^ (-exponent).toNat)
  | _ => .ofRatio x.negative 0 1

end Finite64

/-- The number `coefficient * 10 ^ exponent`, with a coefficient of at most 64 bits. -/
structure LeadingDigits where
  coefficient : Nat
  exponent : Int
  inRange : coefficient < 2 ^ 64
  deriving DecidableEq, Repr

namespace LeadingDigits

/-- The number before any digit. -/
def zero : LeadingDigits := ⟨0, 0, by decide⟩

/-- Add digits before the point. From the first one on that does not fit, they count as zeros. -/
def addWhole : LeadingDigits → List Char → LeadingDigits
  | d, [] => d
  | d, digit :: digits =>
    if h : Text.digitsValue d.coefficient [digit] < 2 ^ 64 then addWhole ⟨_, d.exponent, h⟩ digits
    else ⟨d.coefficient, d.exponent + (digit :: digits).length, d.inRange⟩

/-- Add digits after the point. From the first one on that does not fit, they are left out. -/
def addPlaces : LeadingDigits → List Char → LeadingDigits
  | d, [] => d
  | d, digit :: digits =>
    if h : Text.digitsValue d.coefficient [digit] < 2 ^ 64 then addPlaces ⟨_, d.exponent - 1, h⟩ digits else d

/-- The leading digits of the number `whole.places`. -/
def ofDigits (whole places : List Char) : LeadingDigits := (zero.addWhole whole).addPlaces places

/-- Multiply by a power of ten. -/
def shift (d : LeadingDigits) (power : Int) : LeadingDigits := ⟨d.coefficient, d.exponent + power, d.inRange⟩

/-- The largest power of ten that a binary64 number is near to. -/
def maxPower : Nat := 308

/-- The binary64 number that is read from the digits and a sign, rounded at each step. A division by a power of ten
beyond the largest one is made in two steps. -/
def toBinary64 (negative : Bool) (d : LeadingDigits) : Binary64 :=
  let x := Finite64.ofNat negative d.coefficient d.inRange
  if x.isZero then .finite x
  else if 0 ≤ d.exponent then x.timesPowerOfTen d.exponent.toNat
  else
    let places := (-d.exponent).toNat
    if places ≤ maxPower then x.overPowerOfTen places
    else match x.overPowerOfTen maxPower with
      | .finite y => y.overPowerOfTen (places - maxPower)
      | other => other

/-- Digits before the point that fit are all added. -/
theorem addWhole_of_lt (digits : List Char) (d : LeadingDigits)
    (h : Text.digitsValue d.coefficient digits < 2 ^ 64) :
    d.addWhole digits = ⟨Text.digitsValue d.coefficient digits, d.exponent, h⟩ := by
  induction digits generalizing d with
  | nil => rfl
  | cons digit digits ih =>
    have hfits : Text.digitsValue d.coefficient [digit] < 2 ^ 64 :=
      Nat.lt_of_le_of_lt (Text.le_digitsValue _ digits) h
    rw [addWhole, dif_pos hfits]
    exact ih _ h

/-- Digits after the point that fit are all added. -/
theorem addPlaces_of_lt (digits : List Char) (d : LeadingDigits)
    (h : Text.digitsValue d.coefficient digits < 2 ^ 64) :
    d.addPlaces digits = ⟨Text.digitsValue d.coefficient digits, d.exponent - digits.length, h⟩ := by
  induction digits generalizing d with
  | nil => simp [addPlaces, Text.digitsValue]
  | cons digit digits ih =>
    have hfits : Text.digitsValue d.coefficient [digit] < 2 ^ 64 :=
      Nat.lt_of_le_of_lt (Text.le_digitsValue _ digits) h
    have hexponent : d.exponent - 1 - digits.length = d.exponent - (digit :: digits).length := by
      simp only [List.length_cons]
      omega
    rw [addPlaces, dif_pos hfits, ih _ h, hexponent]
    rfl

/-- Digits that fit are all collected. -/
theorem ofDigits_of_lt (whole places : List Char) (h : Text.digitsValue 0 (whole ++ places) < 2 ^ 64) :
    ofDigits whole places = ⟨Text.digitsValue 0 (whole ++ places), -places.length, h⟩ := by
  have happend : Text.digitsValue 0 (whole ++ places) = Text.digitsValue (Text.digitsValue 0 whole) places :=
    List.foldl_append ..
  have hplaces : Text.digitsValue (Text.digitsValue 0 whole) places < 2 ^ 64 := happend ▸ h
  have hwhole : Text.digitsValue 0 whole < 2 ^ 64 :=
    Nat.lt_of_le_of_lt (Text.le_digitsValue _ places) hplaces
  rw [ofDigits, addWhole_of_lt whole zero hwhole, addPlaces_of_lt places _ hplaces]
  simp [happend, zero]

end LeadingDigits

end TradeIn
