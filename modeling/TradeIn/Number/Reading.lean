import TradeIn.Number.Binary64
import TradeIn.Text.Digits

/-!
# Binary64 numbers in text

A number is a sign that may be left out and then either one of the words `inf`, `infinity` and `nan` in any
case, or decimal digits with a point that may be left out, at least one digit in all, and an exponent that may
be left out. The value is rounded to the nearest binary64 number, and to an infinity beyond the largest.
-/

namespace TradeIn.Binary64

/-- The number `± whole.places * 10 ^ exponent`, with the digits before and after the point. -/
def ofDigits (negative : Bool) (whole places : List Char) (exponent : Int) : Binary64 :=
  ofScientific negative (Text.digitsValue 0 (whole ++ places)) (exponent - places.length)

/-- The exponent that a text after the letter `e` writes: a sign that may be left out and digits. -/
def exponentOfText? : List Char → Option Int
  | '+' :: digits => (Text.natOfDigits? digits).map fun n => (n : Int)
  | '-' :: digits => (Text.natOfDigits? digits).map fun n => -(n : Int)
  | digits => (Text.natOfDigits? digits).map fun n => (n : Int)

/-- The number that a text without a sign writes. -/
def ofUnsignedText? (negative : Bool) (cs : List Char) : Option Binary64 :=
  let word := cs.map Char.toLower
  if word = "inf".toList || word = "infinity".toList then some (.infinite negative)
  else if word = "nan".toList then some .nan
  else
    let whole := cs.takeWhile Char.isDigit
    let afterWhole := cs.dropWhile Char.isDigit
    let afterPoint := match afterWhole with
      | '.' :: rest => rest
      | _ => []
    let places := afterPoint.takeWhile Char.isDigit
    let rest := match afterWhole with
      | '.' :: _ => afterPoint.dropWhile Char.isDigit
      | _ => afterWhole
    if whole.isEmpty && places.isEmpty then none
    else match rest with
      | [] => some (ofDigits negative whole places 0)
      | c :: digits =>
        if c = 'e' || c = 'E' then (exponentOfText? digits).map (ofDigits negative whole places) else none

/-- The number that a text writes, if it writes one. -/
def ofText? (s : String) : Option Binary64 :=
  match s.toList with
  | '+' :: rest => ofUnsignedText? false rest
  | '-' :: rest => ofUnsignedText? true rest
  | cs => ofUnsignedText? false cs

end TradeIn.Binary64
