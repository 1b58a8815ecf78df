import TradeIn.Json.Parsed
import TradeIn.Json.Printer

/-!
# Values that went through text

A value that is written and read again keeps everything but its binary64 numbers: a number is written with the digits
nearest to it, but read from its leading digits with rounding on the way, so that a neighbour may come back. Any value
can be written, but a text that nests arrays and objects too deep is not read. `Json.reread?` is the value that comes
back, and `Json.excess?` the place in the text where reading stops. Keys stay as they are, so a well formed value comes
back well formed.
-/

namespace TradeIn

/-- The number that comes back when it is written and read again. Whole numbers come back as themselves. -/
def Number.reread? : Number → Option Number
  | integer value inRange => some (.integer value inRange)
  | binary value =>
    match Token.ofText (Json.finiteText value) with
    | [.number number] => some number
    | _ => none

namespace Json

mutual

/-- How deep arrays and objects are nested in a value. -/
def nesting : Json → Nat
  | array items => itemsNesting items + 1
  | object members => membersNesting members + 1
  | _ => 0

/-- How deep the items of an array are nested. -/
def itemsNesting : List Json → Nat
  | [] => 0
  | item :: items => max item.nesting (itemsNesting items)

/-- How deep the members of an object are nested. -/
def membersNesting : List (String × Json) → Nat
  | [] => 0
  | (_, value) :: members => max value.nesting (membersNesting members)

end

mutual

/-- A value with the numbers that come back, however deep it is nested. -/
def recoded? : Json → Option Json
  | null => some .null
  | bool value => some (.bool value)
  | number value => value.reread?.map .number
  | string value => some (.string value)
  | array items => (recodedItems? items).map .array
  | object members => (recodedMembers? members).map .object

/-- Items with the numbers that come back. -/
def recodedItems? : List Json → Option (List Json)
  | [] => some []
  | item :: items => do return (← item.recoded?) :: (← recodedItems? items)

/-- Members with the numbers that come back. -/
def recodedMembers? : List (String × Json) → Option (List (String × Json))
  | [] => some []
  | (key, value) :: members => do return (key, ← value.recoded?) :: (← recodedMembers? members)

end

/-- The value that comes back when it is written and read again. -/
def reread? (value : Json) : Option Json := if value.nesting ≤ Parsed.maxDepth then value.recoded? else none

mutual

/-- How many bytes there are up to the first bracket that opens one level too many, in the text of a value that follows
so many bytes and in which so many levels may be opened. -/
def excess? (before : Nat) : Json → (room : Nat) → Option Nat
  | array items, room => if room = 0 then some (before + 1) else itemsExcess? (before + 1) items (room - 1)
  | object members, room => if room = 0 then some (before + 1) else membersExcess? (before + 1) members (room - 1)
  | _, _ => none

/-- The same in the texts of items, each with the comma behind it. -/
def itemsExcess? (before : Nat) : List Json → (room : Nat) → Option Nat
  | [], _ => none
  | item :: items, room =>
    item.excess? before room <|> itemsExcess? (before + item.print.utf8ByteSize + 1) items room

/-- The same in the texts of members, each with the comma behind it. -/
def membersExcess? (before : Nat) : List (String × Json) → (room : Nat) → Option Nat
  | [], _ => none
  | (key, value) :: members, room =>
    let start := before + (quote key).utf8ByteSize + 1
    value.excess? start room <|> membersExcess? (start + value.print.utf8ByteSize + 1) members room

end

/-- What comes back is not nested too deep, and has the numbers that come back. -/
theorem reread?_eq_some_iff {value back : Json} :
    value.reread? = some back ↔ value.nesting ≤ Parsed.maxDepth ∧ value.recoded? = some back := by
  rw [reread?]
  split
  · next hdepth => simp only [hdepth, true_and]
  · next hdeep => simp only [hdeep, false_and, reduceCtorEq]

/-- A signed integer comes back as itself. -/
@[simp]
theorem recoded?_ofInt64 (n : Int64) : (ofInt64 n).recoded? = some (ofInt64 n) := rfl

/-- An unsigned integer comes back as itself. -/
@[simp]
theorem recoded?_ofUInt64 (n : UInt64) : (ofUInt64 n).recoded? = some (ofUInt64 n) := rfl

/-- Members keep their keys. -/
theorem keys_recodedMembers? {members read : List (String × Json)} (h : recodedMembers? members = some read) :
    read.map Prod.fst = members.map Prod.fst := by
  induction members generalizing read with
  | nil => simp_all [recodedMembers?]
  | cons member members ih =>
    simp only [recodedMembers?, bind, Option.bind_eq_some_iff, pure, Option.some.injEq] at h
    obtain ⟨value, -, rest, hrest, rfl⟩ := h
    simp [ih hrest]

mutual

/-- A well formed value stays well formed. -/
theorem WellFormed.recoded? : ∀ {value read : Json}, value.WellFormed → value.recoded? = some read → read.WellFormed
  | .null, _, _, hread => by cases hread; trivial
  | .bool _, _, _, hread => by cases hread; trivial
  | .number _, _, _, hread => by
    simp only [Json.recoded?, Option.map_eq_some_iff] at hread
    obtain ⟨_, -, rfl⟩ := hread
    trivial
  | .string _, _, _, hread => by cases hread; trivial
  | .array items, _, h, hread => by
    simp only [Json.recoded?, Option.map_eq_some_iff] at hread
    obtain ⟨back, hback, rfl⟩ := hread
    simp only [Json.WellFormed] at h ⊢
    exact ItemsWellFormed.recoded? h hback
  | .object members, _, h, hread => by
    simp only [Json.recoded?, Option.map_eq_some_iff] at hread
    obtain ⟨back, hback, rfl⟩ := hread
    simp only [Json.WellFormed, Members.Sorted] at h ⊢
    exact ⟨keys_recodedMembers? hback ▸ h.1, MembersWellFormed.recoded? h.2 hback⟩

/-- Well formed items stay well formed. -/
theorem ItemsWellFormed.recoded? : ∀ {items read : List Json}, ItemsWellFormed items →
    recodedItems? items = some read → ItemsWellFormed read
  | [], _, _, hread => by cases hread; trivial
  | item :: items, _, h, hread => by
    simp only [recodedItems?, bind, Option.bind_eq_some_iff, pure, Option.some.injEq] at hread
    obtain ⟨first, hfirst, rest, hrest, rfl⟩ := hread
    simp only [ItemsWellFormed] at h ⊢
    exact ⟨h.1.recoded? hfirst, ItemsWellFormed.recoded? h.2 hrest⟩

/-- Well formed members stay well formed. -/
theorem MembersWellFormed.recoded? : ∀ {members read : List (String × Json)}, MembersWellFormed members →
    recodedMembers? members = some read → MembersWellFormed read
  | [], _, _, hread => by cases hread; trivial
  | (_, value) :: members, _, h, hread => by
    simp only [recodedMembers?, bind, Option.bind_eq_some_iff, pure, Option.some.injEq] at hread
    obtain ⟨first, hfirst, rest, hrest, rfl⟩ := hread
    simp only [MembersWellFormed] at h ⊢
    exact ⟨h.1.recoded? hfirst, MembersWellFormed.recoded? h.2 hrest⟩

end

/-- What comes back for a well formed value is well formed. -/
theorem WellFormed.reread? {value read : Json} (h : value.WellFormed) (hread : value.reread? = some read) :
    read.WellFormed := h.recoded? (reread?_eq_some_iff.1 hread).2

end Json

end TradeIn
