import TradeIn.Json.Basic

/-!
# Comparing values

Conditions compare answers without coercion between types. Two whole numbers of at most 63 bits and a sign are
compared exactly, any other two numbers as binary64 numbers, so `128` equals `128.0`. Objects are equal when they
have as many members and every member of the first has an equal one in the second.
-/

namespace TradeIn

namespace Number

/-- Numeric equality as conditions see it. -/
def sameValue (a b : Number) : Bool :=
  match a.int64?, b.int64? with
  | some m, some n => m == n
  | _, _ => a.toFinite64.sameValue b.toFinite64

end Number

namespace Json

/-- Whether a value counts as a yes: null, false, zero and the empty string do not. -/
def isTruthy : Json → Bool
  | null => false
  | bool value => value
  | number n => !n.toFinite64.isZero
  | string s => !s.isEmpty
  | array _ => true
  | object _ => true

mutual

/-- Equality of values, with numbers compared by value. -/
def deepEqual : Json → Json → Bool
  | null, null => true
  | bool a, bool b => a == b
  | number a, number b => a.sameValue b
  | string a, string b => a == b
  | array xs, array ys => deepEqualItems xs ys
  | object xs, object ys => xs.length == ys.length && deepEqualMembers xs ys
  | _, _ => false

/-- Equality of two lists of items, position by position. -/
def deepEqualItems : List Json → List Json → Bool
  | [], [] => true
  | x :: xs, y :: ys => deepEqual x y && deepEqualItems xs ys
  | _, _ => false

/-- Whether every member of the first list has an equal one in the second. -/
def deepEqualMembers : List (String × Json) → List (String × Json) → Bool
  | [], _ => true
  | (key, x) :: xs, ys =>
    (match Members.get? ys key with
      | some y => deepEqual x y
      | none => false) && deepEqualMembers xs ys

end

end Json

end TradeIn
