import TradeIn.Json.Basic
import TradeIn.Number.LeadingDigits

/-!
# The tokens of a JSON text

`Token.ofText` cuts a text into tokens from left to right and ends with `broken` at the first place where no
token can be read. Two kinds of token are well formed but hold nothing that a JSON value can hold: a string with
half of a surrogate pair, and a number beyond the binary64 range. They may still be skipped.
-/

namespace TradeIn

/-- A token of a JSON text. -/
inductive Token where
  | openArray
  | closeArray
  | openObject
  | closeObject
  | comma
  | colon
  | null
  | bool (value : Bool)
  | number (value : Number)
  | string (value : String)
  /-- A number beyond the binary64 range. -/
  | hugeNumber
  /-- A string with half of a surrogate pair. -/
  | loneSurrogate
  /-- The rest of the text starts with no token. -/
  | broken
  deriving Repr

namespace Token

/-- A piece of a string: a character, or a code unit written as an escape. -/
inductive Piece where
  | char (c : Char)
  | unit (code : Nat)

/-- The value of a hexadecimal digit. -/
def hexValue? (c : Char) : Option Nat :=
  if c.isDigit then some (c.toNat - '0'.toNat)
  else if 'a' ≤ c ∧ c ≤ 'f' then some (c.toNat - 'a'.toNat + 10)
  else if 'A' ≤ c ∧ c ≤ 'F' then some (c.toNat - 'A'.toNat + 10)
  else none

/-- The code unit written with four hexadecimal digits. -/
def codeUnit? (a b c d : Char) : Option Nat := do
  return ((← hexValue? a) * 16 + (← hexValue? b)) * 256 + (← hexValue? c) * 16 + (← hexValue? d)

/-- The character that a letter after a backslash stands for. -/
def escaped? : Char → Option Char
  | '"' => some '"'
  | '\\' => some '\\'
  | '/' => some '/'
  | 'b' => some '\x08'
  | 'f' => some '\x0c'
  | 'n' => some '\n'
  | 'r' => some '\r'
  | 't' => some '\t'
  | _ => none

/-- The pieces of a string up to its closing quote, and the text after that. There are none if the quote is
missing, an escape is unknown, or a control character stands in the string. -/
def pieces? : (before : List Piece) → List Char → Option (List Piece × List Char)
  | _, [] => none
  | before, '"' :: rest => some (before.reverse, rest)
  | before, '\\' :: 'u' :: a :: b :: c :: d :: rest =>
    match codeUnit? a b c d with
    | some code => pieces? (.unit code :: before) rest
    | none => none
  | before, '\\' :: letter :: rest =>
    match escaped? letter with
    | some c => pieces? (.char c :: before) rest
    | none => none
  | before, c :: rest => if c.toNat < 0x20 || c = '\\' then none else pieces? (.char c :: before) rest

/-- Whether a code unit is the first half of a surrogate pair. -/
def isHighSurrogate (code : Nat) : Bool := 0xD800 ≤ code && code ≤ 0xDBFF

/-- Whether a code unit is the second half of a surrogate pair. -/
def isLowSurrogate (code : Nat) : Bool := 0xDC00 ≤ code && code ≤ 0xDFFF

/-- The characters of the pieces after the given ones. Surrogates stand for a character only in pairs. -/
def joinPieces? : (before : List Char) → List Piece → Option String
  | before, [] => some (String.ofList before.reverse)
  | before, .char c :: rest => joinPieces? (c :: before) rest
  | before, .unit high :: .unit low :: rest =>
    if isHighSurrogate high then
      if isLowSurrogate low then
        joinPieces? (Char.ofNat (0x10000 + (high - 0xD800) * 0x400 + (low - 0xDC00)) :: before) rest
      else none
    else if isLowSurrogate high then none
    else joinPieces? (Char.ofNat high :: before) (.unit low :: rest)
  | before, .unit code :: rest =>
    if isHighSurrogate code || isLowSurrogate code then none
    else joinPieces? (Char.ofNat code :: before) rest

/-- The string token whose opening quote stands before the text, and the rest of the text. -/
def lexString (cs : List Char) : Token × List Char :=
  match pieces? [] cs with
  | none => (.broken, [])
  | some (pieces, rest) =>
    match joinPieces? [] pieces with
    | some value => (.string value, rest)
    | none => (.loneSurrogate, rest)

/-- The token of a number with a point or an exponent. -/
def ofBinary64 : Binary64 → Token
  | .finite x => .number (.binary x)
  | _ => .hugeNumber

/-- The token of a number with the digits before and after its point and its exponent. -/
def ofDecimal (negative : Bool) (whole places : List Char) (exponent : Int) : Token :=
  ofBinary64 (((LeadingDigits.ofDigits whole places).shift exponent).toBinary64 negative)

/-- The token of a number without point and exponent. Zero with a minus sign and a number beyond 64 bits are
binary64 numbers. -/
def ofInteger (negative : Bool) (digits : List Char) : Token :=
  let d := LeadingDigits.ofDigits digits []
  let value : Int := if negative then -(d.coefficient : Int) else d.coefficient
  if h : (-2 ^ 63 ≤ value ∧ value < 2 ^ 64) ∧ d.exponent = 0 ∧ ¬ (negative = true ∧ value = 0) then
    .number (.integer value h.1)
  else ofBinary64 (d.toBinary64 negative)

/-- The exponent at the start of a text: none if there is no `e`, and otherwise its value, which needs a digit. -/
def lexExponent (cs : List Char) : Option (Option Int) × List Char :=
  match cs with
  | c :: rest =>
    if c = 'e' || c = 'E' then
      let unsigned := match rest with
        | '+' :: digits => digits
        | '-' :: digits => digits
        | digits => digits
      let digits := unsigned.takeWhile Char.isDigit
      let magnitude : Int := Text.digitsValue 0 digits
      let value := if rest.head? = some '-' then -magnitude else magnitude
      (if digits.isEmpty then none else some (some value), unsigned.dropWhile Char.isDigit)
    else (some none, cs)
  | [] => (some none, [])

/-- The number token at the start of a text after its sign. A zero must not be followed by a digit, and digits
must follow the point and the exponent letter. -/
def lexNumber (negative : Bool) (cs : List Char) : Token × List Char :=
  let whole := cs.takeWhile Char.isDigit
  let afterWhole := cs.dropWhile Char.isDigit
  if whole.isEmpty || (whole.head? = some '0' && whole.length > 1) then (.broken, [])
  else
    let hasPoint := afterWhole.head? = some '.'
    let afterPoint := if hasPoint then afterWhole.drop 1 else []
    let places := afterPoint.takeWhile Char.isDigit
    let afterPlaces := if hasPoint then afterPoint.dropWhile Char.isDigit else afterWhole
    if hasPoint && places.isEmpty then (.broken, [])
    else match lexExponent afterPlaces with
      | (none, _) => (.broken, [])
      | (some none, rest) =>
        (if hasPoint then ofDecimal negative whole places 0 else ofInteger negative whole, rest)
      | (some (some exponent), rest) => (ofDecimal negative whole places exponent, rest)

/-- The token after a given first character, and the rest of the text. -/
def lexFrom (first : Char) (rest : List Char) : Token × List Char :=
  match first, rest with
  | '[', _ => (.openArray, rest)
  | ']', _ => (.closeArray, rest)
  | '\x7b', _ => (.openObject, rest)
  | '\x7d', _ => (.closeObject, rest)
  | ',', _ => (.comma, rest)
  | ':', _ => (.colon, rest)
  | '"', _ => lexString rest
  | '-', _ => lexNumber true rest
  | 'n', 'u' :: 'l' :: 'l' :: rest => (.null, rest)
  | 't', 'r' :: 'u' :: 'e' :: rest => (.bool true, rest)
  | 'f', 'a' :: 'l' :: 's' :: 'e' :: rest => (.bool false, rest)
  | _, _ => if first.isDigit then lexNumber false (first :: rest) else (.broken, [])

/-- Whether a character may stand between tokens. -/
def isSpace (c : Char) : Bool := c = ' ' || c = '\n' || c = '\r' || c = '\t'

/-- The tokens of a text after the given ones, at most `limit` more. -/
def lexUpTo : (limit : Nat) → (before : List Token) → List Char → List Token
  | 0, before, _ => before.reverse
  | limit + 1, before, cs =>
    match cs.dropWhile isSpace with
    | [] => before.reverse
    | first :: rest =>
      match lexFrom first rest with
      | (.broken, _) => (Token.broken :: before).reverse
      | (token, rest) => lexUpTo limit (token :: before) rest

/-- The tokens of a text. A token takes at least one character, so there are no more than characters. -/
def ofText (text : String) : List Token :=
  let cs := text.toList
  lexUpTo cs.length [] cs

end Token

end TradeIn
