import TradeIn.Json.Members
import TradeIn.Number.Binary64

/-!
# JSON values

A number is either a whole number that a signed or an unsigned 64-bit integer can hold, or a finite binary64
number; `128` and `128.0` are different values. An object is a list of members. Values that are read hold the
members of every object in key order, each key once; `Json.WellFormed` says so.
-/

namespace TradeIn

/-- A JSON number. -/
inductive Number where
  /-- A whole number, written without point and exponent. -/
  | integer (value : Int) (inRange : -2 ^ 63 ≤ value ∧ value < 2 ^ 64)
  /-- Any other number. -/
  | binary (value : Finite64)
  deriving DecidableEq, Repr

namespace Number

/-- A signed 64-bit integer as a number. -/
def ofInt64 (n : Int64) : Number :=
  .integer n.toInt (by
    have hlow := Int64.le_toInt n
    have hhigh := Int64.toInt_lt n
    omega)

/-- An unsigned 64-bit integer as a number. -/
def ofUInt64 (n : UInt64) : Number :=
  .integer n.toNat (by
    have h := n.toNat_lt
    omega)

/-- The whole number, if it is one and a signed 64-bit integer can hold it. -/
def int64? : Number → Option Int64
  | integer value _ => if value < 2 ^ 63 then some (Int64.ofInt value) else none
  | binary _ => none

/-- The whole number, if it is one and an unsigned 64-bit integer can hold it. -/
def uint64? : Number → Option UInt64
  | integer value _ => if 0 ≤ value then some (UInt64.ofNat value.toNat) else none
  | binary _ => none

@[simp]
theorem int64?_ofInt64 (n : Int64) : (ofInt64 n).int64? = some n := by
  have h := Int64.toInt_lt n
  simp only [ofInt64, int64?]
  rw [if_pos (by omega), Int64.ofInt_toInt]

@[simp]
theorem uint64?_ofUInt64 (n : UInt64) : (ofUInt64 n).uint64? = some n := by
  simp [ofUInt64, uint64?]

/-- The nearest binary64 number. -/
def toFinite64 : Number → Finite64
  | integer value inRange => Finite64.ofNat (value < 0) value.natAbs (by omega)
  | binary value => value

end Number

/-- A JSON value. -/
inductive Json where
  | null
  | bool (value : Bool)
  | number (value : Number)
  | string (value : String)
  | array (items : List Json)
  | object (members : List (String × Json))
  deriving Repr

namespace Json

instance : Inhabited Json := ⟨.null⟩

/-- A signed 64-bit integer as a value. -/
def ofInt64 (n : Int64) : Json := .number (.ofInt64 n)

/-- An unsigned 64-bit integer as a value. -/
def ofUInt64 (n : UInt64) : Json := .number (.ofUInt64 n)

/-- A binary64 number as a value; infinities and what is not a number are null. -/
def ofBinary64 : Binary64 → Json
  | .finite x => .number (.binary x)
  | _ => .null

/-- The value of a key, if this is an object with that key. -/
def get? (key : String) : Json → Option Json
  | object members => Members.get? members key
  | _ => none

/-- Whether the value is an object. -/
def isObject : Json → Bool
  | object _ => true
  | _ => false

/-- The finite binary64 number of a value that is a number. -/
def finite? : Json → Option Finite64
  | number n => some n.toFinite64
  | _ => none

mutual

/-- Whether two values are the same, numbers with their kind. -/
def same : Json → Json → Bool
  | null, null => true
  | bool a, bool b => a == b
  | number a, number b => a == b
  | string a, string b => a == b
  | array xs, array ys => sameItems xs ys
  | object xs, object ys => sameMembers xs ys
  | _, _ => false

/-- Whether two lists of items are the same. -/
def sameItems : List Json → List Json → Bool
  | [], [] => true
  | x :: xs, y :: ys => same x y && sameItems xs ys
  | _, _ => false

/-- Whether two lists of members are the same, in the same order. -/
def sameMembers : List (String × Json) → List (String × Json) → Bool
  | [], [] => true
  | (k, x) :: xs, (l, y) :: ys => k == l && same x y && sameMembers xs ys
  | _, _ => false

end

mutual

theorem same_iff : ∀ a b : Json, same a b = true ↔ a = b
  | null, b => by cases b <;> simp [same]
  | bool _, b => by cases b <;> simp [same]
  | number _, b => by cases b <;> simp [same]
  | string _, b => by cases b <;> simp [same]
  | array xs, b => by cases b <;> simp [same, sameItems_iff xs]
  | object xs, b => by cases b <;> simp [same, sameMembers_iff xs]

theorem sameItems_iff : ∀ xs ys : List Json, sameItems xs ys = true ↔ xs = ys
  | [], ys => by cases ys <;> simp [sameItems]
  | x :: xs, ys => by cases ys <;> simp [sameItems, same_iff x, sameItems_iff xs]

theorem sameMembers_iff : ∀ xs ys : List (String × Json), sameMembers xs ys = true ↔ xs = ys
  | [], ys => by cases ys <;> simp [sameMembers]
  | (k, x) :: xs, ys => by
    cases ys <;> simp [sameMembers, same_iff x, sameMembers_iff xs, Prod.ext_iff]

end

instance : DecidableEq Json := fun a b => decidable_of_iff _ (same_iff a b)

mutual

/-- Every object in the value has its keys in increasing order, each key once. -/
def WellFormed : Json → Prop
  | array items => ItemsWellFormed items
  | object members => Members.Sorted members ∧ MembersWellFormed members
  | _ => True

/-- Every item is well formed. -/
def ItemsWellFormed : List Json → Prop
  | [] => True
  | item :: items => item.WellFormed ∧ ItemsWellFormed items

/-- Every member's value is well formed. -/
def MembersWellFormed : List (String × Json) → Prop
  | [] => True
  | (_, value) :: members => value.WellFormed ∧ MembersWellFormed members

end

end Json

end TradeIn
