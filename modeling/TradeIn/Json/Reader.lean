import TradeIn.Json.Parsed

/-!
# Reading typed values

A `Reader` turns the tree of a text into a typed value or names the first problem it meets from left to right: the
text is no JSON there, or a value does not have the expected type. `Reader.ofJson?` reads a value that is
already there, and `Reader.ofText` a text.
-/

namespace TradeIn

/-- Why a text cannot be read as a value of some type. -/
inductive Fault where
  /-- The text is no JSON. -/
  | malformed
  /-- The text is JSON so far, but a value does not have the expected type. -/
  | mismatched
  deriving DecidableEq, Repr

/-- A way to read a tree as a value of some type. -/
abbrev Reader (α : Type) := Parsed → Except Fault α

namespace Parsed

/-- The problem with a tree that does not have the expected type. -/
def misfit : Parsed → Fault
  | broken => .malformed
  | unreadable => .malformed
  | _ => .mismatched

mutual

/-- Pass over a value without reading it. -/
def skip : Parsed → Except Fault Unit
  | array items closed => skipItems items closed
  | object members closed => skipMembers members closed
  | broken => .error .malformed
  | _ => .ok ()

/-- Pass over the items of an array. -/
def skipItems : List Parsed → Bool → Except Fault Unit
  | [], closed => if closed then .ok () else .error .malformed
  | item :: items, closed => do
    item.skip
    skipItems items closed

/-- Pass over the members of an object. -/
def skipMembers : List (Option String × Parsed) → Bool → Except Fault Unit
  | [], closed => if closed then .ok () else .error .malformed
  | (_, value) :: members, closed => do
    value.skip
    skipMembers members closed

end

mutual

/-- Read any value. Objects keep the last value of a repeated key. -/
def toJson : Parsed → Except Fault Json
  | null => .ok .null
  | bool value => .ok (.bool value)
  | number value => .ok (.number value)
  | string value => .ok (.string value)
  | array items closed => do return .array (← toItems items closed)
  | object members closed => do return .object (Members.ofList (← toMembers members closed))
  | unreadable => .error .malformed
  | broken => .error .malformed

/-- Read the items of an array. -/
def toItems : List Parsed → Bool → Except Fault (List Json)
  | [], closed => if closed then .ok [] else .error .malformed
  | item :: items, closed => do
    let item ← item.toJson
    return item :: (← toItems items closed)

/-- Read the members of an object in the order of the text. -/
def toMembers : List (Option String × Parsed) → Bool → Except Fault (List (String × Json))
  | [], closed => if closed then .ok [] else .error .malformed
  | (none, _) :: _, _ => .error .malformed
  | (some key, value) :: members, closed => do
    let value ← value.toJson
    return (key, value) :: (← toMembers members closed)

end

mutual

/-- The tree of a well formed value reads back as the value. -/
theorem toJson_parsed : ∀ value : Json, value.WellFormed → value.parsed.toJson = .ok value
  | .null, _ => rfl
  | .bool _, _ => rfl
  | .number _, _ => rfl
  | .string _, _ => rfl
  | .array items, h => by
    have hitems := toItems_parsedItems items (by simpa [Json.WellFormed] using h)
    simp [Json.parsed, toJson, hitems, bind, Except.bind, pure, Except.pure]
  | .object members, h => by
    simp only [Json.WellFormed] at h
    have hmembers := toMembers_parsedMembers members h.2
    simp [Json.parsed, toJson, hmembers, Members.ofList_eq_self h.1, bind, Except.bind, pure, Except.pure]

/-- The trees of well formed items read back as the items. -/
theorem toItems_parsedItems : ∀ items : List Json, Json.ItemsWellFormed items →
    toItems (Json.parsedItems items) true = .ok items
  | [], _ => rfl
  | item :: items, h => by
    simp only [Json.ItemsWellFormed] at h
    simp [Json.parsedItems, toItems, toJson_parsed item h.1, toItems_parsedItems items h.2, bind, Except.bind,
      pure, Except.pure]

/-- The trees of well formed members read back as the members. -/
theorem toMembers_parsedMembers : ∀ members : List (String × Json), Json.MembersWellFormed members →
    toMembers (Json.parsedMembers members) true = .ok members
  | [], _ => rfl
  | (key, value) :: members, h => by
    simp only [Json.MembersWellFormed] at h
    simp [Json.parsedMembers, toMembers, toJson_parsed value h.1, toMembers_parsedMembers members h.2, bind,
      Except.bind, pure, Except.pure]

end

end Parsed

namespace Reader

variable {α : Type}

/-- Read any value. -/
def json : Reader Json := Parsed.toJson

/-- Read a boolean. -/
def bool : Reader Bool
  | .bool value => .ok value
  | parsed => .error parsed.misfit

/-- Read a string. -/
def string : Reader String
  | .string value => .ok value
  | parsed => .error parsed.misfit

/-- Read a number that a partial function accepts. -/
def numberThat (accept? : Number → Option α) : Reader α
  | .number value => match accept? value with
    | some accepted => .ok accepted
    | none => .error .mismatched
  | parsed => .error parsed.misfit

/-- Read a signed 64-bit integer, which must be written as one. -/
def int64 : Reader Int64 := numberThat Number.int64?

/-- Read an unsigned 64-bit integer, which must be written as one. -/
def uint64 : Reader UInt64 := numberThat Number.uint64?

/-- Read an unsigned 16-bit integer, which must be written as one. -/
def uint16 : Reader UInt16 := numberThat fun n => do
  let value ← n.uint64?
  if value < 65536 then some value.toUInt16 else none

/-- Read any number as the nearest binary64 number. -/
def binary64 : Reader Binary64 := numberThat fun n => some (.finite n.toFinite64)

/-- Read a value that may be null. -/
def nullable (reader : Reader α) : Reader (Option α)
  | .null => .ok none
  | parsed => do return some (← reader parsed)

/-- Read the items of an array. -/
def items (reader : Reader α) : List Parsed → Bool → Except Fault (List α)
  | [], closed => if closed then .ok [] else .error .malformed
  | item :: rest, closed => do
    let item ← reader item
    return item :: (← items reader rest closed)

/-- Read an array whose items are all of one type. -/
def list (reader : Reader α) : Reader (List α)
  | .array parsed closed => items reader parsed closed
  | parsed => .error parsed.misfit

/-- Read the members of an object in the order of the text. -/
def entries (reader : Reader α) : List (Option String × Parsed) → Bool → Except Fault (List (String × α))
  | [], closed => if closed then .ok [] else .error .malformed
  | (none, _) :: _, _ => .error .malformed
  | (some key, value) :: rest, closed => do
    let value ← reader value
    return (key, value) :: (← entries reader rest closed)

/-- Read an object with any keys whose values are all of one type. The last value of a key stays. -/
def members (reader : Reader α) : Reader (Members α)
  | .object parsed closed => do return Members.ofList (← entries reader parsed closed)
  | parsed => .error parsed.misfit

/-- Read the whole value first, and then as the first of two types that fits. -/
def orElse (first second : Reader α) : Reader α := fun parsed => do
  let _ ← parsed.toJson
  match first parsed with
  | .ok value => .ok value
  | .error _ => match second parsed with
    | .ok value => .ok value
    | .error _ => .error .mismatched

/-- Read a value that is already there. -/
def ofJson? (reader : Reader α) (value : Json) : Option α := (reader value.parsed).toOption

/-- A well formed value is read as itself. -/
theorem ofJson?_json {value : Json} (h : value.WellFormed) : json.ofJson? value = some value := by
  simp [ofJson?, json, Parsed.toJson_parsed value h, Except.toOption]

/-- Read a text, after which nothing but white space may follow. -/
def ofText (reader : Reader α) (text : String) : Except Fault α := do
  let (parsed, complete) := Parsed.ofText text
  let value ← reader parsed
  if complete then .ok value else .error .malformed

end Reader

end TradeIn
