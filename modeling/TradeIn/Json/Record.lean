import TradeIn.Json.Reader

/-!
# Reading records

A record is read from an object with its fields in any order, or from an array of its fields in the order of
their declaration. `RecordReader` lists the fields and says how the record is built from them, so that a record's
reader is written once: the constructor applied to its fields. Unknown members are passed over, and a field that
occurs twice is refused when its key comes the second time. A missing field is noticed at the closing bracket.
-/

namespace TradeIn

/-- Whether a field may be left out. -/
inductive Presence where
  | required
  /-- It may be left out of an object, but not of an array. -/
  | optionalMember
  | optional
  deriving DecidableEq, Repr

/-- A field of a record as its text is checked. -/
structure Field where
  /-- The key of the field. -/
  name : String
  /-- The first problem with a value of the field. -/
  check : Parsed → Except Fault Unit
  /-- Whether the field may be left out. -/
  presence : Presence

/-- A way to read a record: its fields in order, and the record that the values found for them make. -/
structure RecordReader (α : Type) where
  fields : List Field
  build : (String → Option Parsed) → Except Fault α

namespace RecordReader

variable {α β : Type}

instance : Functor RecordReader where
  map f record := ⟨record.fields, fun find => (record.build find).map f⟩

instance : Seq RecordReader where
  seq function argument :=
    let argument := argument ()
    ⟨function.fields ++ argument.fields, fun find => do
      let f ← function.build find
      return f (← argument.build find)⟩

/-- The check of a field that only looks for problems. -/
def checking (reader : Reader α) : Parsed → Except Fault Unit := fun parsed => (reader parsed).map fun _ => ()

/-- A field that must be there. -/
def required (name : String) (reader : Reader α) : RecordReader α where
  fields := [⟨name, checking reader, .required⟩]
  build find := match find name with
    | some parsed => reader parsed
    | none => .error .mismatched

/-- A field that may be null or, as `presence` says, left out, which both mean that it has no value. -/
def absentable (presence : Presence) (name : String) (reader : Reader α) : RecordReader (Option α) where
  fields := [⟨name, checking reader.nullable, presence⟩]
  build find := match find name with
    | some parsed => reader.nullable parsed
    | none => .ok none

/-- A field that may be null or left out. -/
def optional (name : String) (reader : Reader α) : RecordReader (Option α) := absentable .optional name reader

/-- A field that may be null, or left out of an object. -/
def optionalMember (name : String) (reader : Reader α) : RecordReader (Option α) :=
  absentable .optionalMember name reader

/-- A field that has a value of its own when it is left out. -/
def defaulted (name : String) (value : α) (reader : Reader α) : RecordReader α where
  fields := [⟨name, checking reader, .optional⟩]
  build find := match find name with
    | some parsed => reader parsed
    | none => .ok value

/-- Check the members of an object, given the keys of the fields seen before. -/
def checkMembers (fields : List Field) (seen : List String) :
    List (Option String × Parsed) → (closed : Bool) → Except Fault Unit
  | [], closed =>
    if !closed then .error .malformed
    else if fields.all fun field => seen.contains field.name || field.presence != .required then .ok ()
    else .error .mismatched
  | (none, _) :: _, _ => .error .malformed
  | (some key, value) :: rest, closed =>
    match fields.find? fun field => field.name == key with
    | none => do
      value.skip
      checkMembers fields seen rest closed
    | some field =>
      if seen.contains key then .error .mismatched
      else do
        field.check value
        checkMembers fields (key :: seen) rest closed

/-- Check the items of an array against the fields in order. -/
def checkItems : List Field → List Parsed → (closed : Bool) → Except Fault Unit
  | [], items, closed => if items.isEmpty && closed then .ok () else .error .malformed
  | field :: fields, [], closed =>
    if !closed then .error .malformed
    else if field.presence = .optional then checkItems fields [] closed
    else .error .mismatched
  | field :: fields, item :: items, closed => do
    field.check item
    checkItems fields items closed

/-- The value of the first member with a key. -/
def member? (members : List (Option String × Parsed)) (key : String) : Option Parsed := members.lookup (some key)

/-- Read a record from an object or an array. -/
def read (record : RecordReader α) : Reader α
  | .object members closed => do
    checkMembers record.fields [] members closed
    record.build (member? members)
  | .array items closed => do
    checkItems record.fields items closed
    record.build fun name => ((record.fields.map Field.name).zip items).lookup name
  | parsed => .error parsed.misfit

end RecordReader

end TradeIn
