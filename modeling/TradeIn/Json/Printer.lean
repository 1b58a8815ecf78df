import TradeIn.Json.Basic
import TradeIn.Number.Shortest

/-!
# Writing JSON

Text is written in full except for quotes, backslashes and control characters. A binary64 number has the fewest
digits that read back and always a point or an exponent, so that it is never mistaken for a whole number.
-/

namespace TradeIn.Json

/-- The hexadecimal digit of a number below sixteen. -/
def hexDigit (n : Nat) : Char := if n < 10 then Char.ofNat ('0'.toNat + n) else Char.ofNat ('a'.toNat + (n - 10))

/-- A character as it stands in a string. -/
def escapeChar (c : Char) : String :=
  if c = '"' then "\\\""
  else if c = '\\' then "\\\\"
  else if c = '\n' then "\\n"
  else if c = '\r' then "\\r"
  else if c = '\t' then "\\t"
  else if c = '\x08' then "\\b"
  else if c = '\x0c' then "\\f"
  else if c.toNat < 0x20 then
    "\\u00" ++ String.singleton (hexDigit (c.toNat / 16)) ++ String.singleton (hexDigit (c.toNat % 16))
  else String.singleton c

/-- A string in quotes. -/
def quote (s : String) : String := s.toList.foldl (fun text c => text ++ escapeChar c) "\"" ++ "\""

/-- The leading exponents from the first to the second are written without an exponent. -/
def positionalExponents : Int × Int := (-5, 15)

/-- A magnitude with the given digits, written without an exponent: at least one digit on both sides of the
point. -/
def positional (d : DecimalDigits) : String :=
  let digits := d.text.toList
  let zeros (n : Int) := List.replicate n.toNat '0'
  if 0 ≤ d.exponent then String.ofList (digits ++ zeros d.exponent) ++ ".0"
  else
    let padded := zeros (1 - (digits.length : Int) - d.exponent) ++ digits
    let whole := padded.length - (-d.exponent).toNat
    String.ofList (padded.take whole) ++ "." ++ String.ofList (padded.drop whole)

/-- A magnitude with the given digits, written with one digit before the point and a signed exponent. -/
def scientific (d : DecimalDigits) : String :=
  let digits := d.text.toList
  let places := digits.drop 1
  let sign := if d.leadingExponent < 0 then "-" else "+"
  String.ofList (digits.take 1) ++ (if places.isEmpty then "" else "." ++ String.ofList places) ++ "e" ++ sign ++
    toString d.leadingExponent.natAbs

/-- A binary64 number. -/
def finiteText (x : Finite64) : String :=
  let d := x.shortest
  let magnitude :=
    if positionalExponents.1 ≤ d.leadingExponent ∧ d.leadingExponent ≤ positionalExponents.2 then positional d
    else scientific d
  if x.negative then "-" ++ magnitude else magnitude

/-- A number. -/
def numberText : Number → String
  | .integer value _ => toString value
  | .binary value => finiteText value

mutual

/-- The text of a value, after the text before it. -/
def printAfter (text : String) : Json → String
  | null => text ++ "null"
  | bool value => text ++ (if value then "true" else "false")
  | number value => text ++ numberText value
  | string value => text ++ quote value
  | array [] => text ++ "[]"
  | array (item :: items) => printItemsAfter (printAfter (text ++ "[") item) items ++ "]"
  | object [] => text ++ "\x7b\x7d"
  | object ((key, value) :: members) =>
    printMembersAfter (printAfter (text ++ "\x7b" ++ quote key ++ ":") value) members ++ "\x7d"

/-- The items after the first. -/
def printItemsAfter (text : String) : List Json → String
  | [] => text
  | item :: items => printItemsAfter (printAfter (text ++ ",") item) items

/-- The members after the first. -/
def printMembersAfter (text : String) : List (String × Json) → String
  | [] => text
  | (key, value) :: members => printMembersAfter (printAfter (text ++ "," ++ quote key ++ ":") value) members

end

/-- The text of a value. -/
def print (value : Json) : String := printAfter "" value

end TradeIn.Json
