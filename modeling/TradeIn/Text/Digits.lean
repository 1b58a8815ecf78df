/-!
# Whole numbers in decimal digits

A whole number is written with the digits `0` to `9`, at least one, after a sign that may be left out. A minus
sign is accepted only where negative numbers are. A number outside the range of its type is no number.
-/

namespace TradeIn.Text

/-- The value of a list of decimal digits after the value of the digits before them. -/
def digitsValue (before : Nat) (digits : List Char) : Nat :=
  digits.foldl (fun value digit => 10 * value + (digit.toNat - '0'.toNat)) before

/-- More digits never make a number smaller. -/
theorem le_digitsValue (before : Nat) (digits : List Char) : before ≤ digitsValue before digits := by
  induction digits generalizing before with
  | nil => exact Nat.le_refl _
  | cons digit digits ih =>
    have hnext := ih (10 * before + (digit.toNat - '0'.toNat))
    simp only [digitsValue, List.foldl_cons] at hnext ⊢
    omega

/-- The number written with these digits alone, at least one. -/
def natOfDigits? (cs : List Char) : Option Nat :=
  if cs.isEmpty || cs.any (fun c => !c.isDigit) then none else some (digitsValue 0 cs)

/-- The number below `bound` that a text without a minus sign writes. -/
def natBelow? (bound : Nat) (s : String) : Option Nat :=
  let value? := match s.toList with
    | '+' :: digits => natOfDigits? digits
    | digits => natOfDigits? digits
  value?.filter (· < bound)

/-- The signed 64-bit number that a text writes. -/
def int64? (s : String) : Option Int64 :=
  let value? : Option Int := match s.toList with
    | '+' :: digits => (natOfDigits? digits).map fun n => (n : Int)
    | '-' :: digits => (natOfDigits? digits).map fun n => -(n : Int)
    | digits => (natOfDigits? digits).map fun n => (n : Int)
  (value?.filter fun n => Int64.minValue.toInt ≤ n && n ≤ Int64.maxValue.toInt).map Int64.ofInt

end TradeIn.Text
