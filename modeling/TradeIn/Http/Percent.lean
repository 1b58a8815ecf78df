/-!
# Percent encoding and UTF-8

Parts of a path and of a query are bytes, some of them written as a percent sign and two hexadecimal digits. A
percent sign without two digits stands for itself. Bytes that are no UTF-8 become the replacement character, one for
each longest start of a character.
-/

namespace TradeIn.Http

/-- The value of a byte that is a hexadecimal digit. -/
def hexByte? (byte : UInt8) : Option UInt8 :=
  if 48 ≤ byte ∧ byte ≤ 57 then some (byte - 48)
  else if 65 ≤ byte ∧ byte ≤ 70 then some (byte - 55)
  else if 97 ≤ byte ∧ byte ≤ 102 then some (byte - 87)
  else none

/-- The bytes that percent-encoded bytes stand for. -/
def percentDecode : List UInt8 → List UInt8
  | [] => []
  | 37 :: high :: low :: rest =>
    match hexByte? high, hexByte? low with
    | some h, some l => (16 * h + l) :: percentDecode rest
    | _, _ => 37 :: percentDecode (high :: low :: rest)
  | byte :: rest => byte :: percentDecode rest

/-- Whether a byte continues a character. -/
def isContinuation (byte : UInt8) : Bool := 0x80 ≤ byte && byte ≤ 0xBF

/-- The second bytes that may follow a first byte of a character of three or four bytes. -/
def secondByteRange (first : UInt8) : UInt8 × UInt8 :=
  if first = 0xE0 then (0xA0, 0xBF)
  else if first = 0xED then (0x80, 0x9F)
  else if first = 0xF0 then (0x90, 0xBF)
  else if first = 0xF4 then (0x80, 0x8F)
  else (0x80, 0xBF)

/-- How many bytes the character with a first byte has; none if no character starts with it. -/
def characterLength? (first : UInt8) : Option Nat :=
  if first < 0x80 then some 1
  else if 0xC2 ≤ first ∧ first ≤ 0xDF then some 2
  else if 0xE0 ≤ first ∧ first ≤ 0xEF then some 3
  else if 0xF0 ≤ first ∧ first ≤ 0xF4 then some 4
  else none

/-- The character of a first byte, of which `low` is the part that counts, and its continuation bytes. -/
def character (low : UInt8) (continuation : List UInt8) : Char :=
  Char.ofNat (continuation.foldl (fun code byte => code * 64 + (byte.toNat - 0x80)) low.toNat)

/-- What stands for bytes that are no UTF-8. -/
def replacement : Char := '\uFFFD'

/-- The characters that bytes stand for. -/
def utf8Decode : List UInt8 → List Char
  | [] => []
  | first :: rest =>
    let range := secondByteRange first
    let isSecond (byte : UInt8) : Bool := range.1 ≤ byte && byte ≤ range.2
    match characterLength? first, rest with
    | some 1, rest => character first [] :: utf8Decode rest
    | some 2, b :: tail =>
      if isContinuation b then character (first - 0xC0) [b] :: utf8Decode tail
      else replacement :: utf8Decode (b :: tail)
    | some 3, b :: tail =>
      if !isSecond b then replacement :: utf8Decode (b :: tail)
      else match tail with
        | c :: tail =>
          if isContinuation c then character (first - 0xE0) [b, c] :: utf8Decode tail
          else replacement :: utf8Decode (c :: tail)
        | [] => [replacement]
    | some 4, b :: tail =>
      if !isSecond b then replacement :: utf8Decode (b :: tail)
      else match tail with
        | c :: tail =>
          if !isContinuation c then replacement :: utf8Decode (c :: tail)
          else match tail with
            | d :: tail =>
              if isContinuation d then character (first - 0xF0) [b, c, d] :: utf8Decode tail
              else replacement :: utf8Decode (d :: tail)
            | [] => [replacement]
        | [] => [replacement]
    | _, rest => replacement :: utf8Decode rest

/-- The text of a part of a path. -/
def decodePart (part : String) : String :=
  String.ofList (utf8Decode (percentDecode part.toUTF8.data.toList))

/-- The text of a key or a value of a query, in which a plus sign stands for a space. -/
def decodeFormPart (part : String) : String :=
  decodePart (part.map fun c => if c = '+' then ' ' else c)

end TradeIn.Http
