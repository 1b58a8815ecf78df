import TradeIn.Json.Record
import TradeIn.Text.Blank

/-!
# Device types and their aliases

A device type has an id, perhaps a short code, and a name. A rule may name its device type by any of the three, so
they are aliases of each other. `AliasSet` is the set of names that a reference stands for; it always holds the
reference itself.
-/

namespace TradeIn

/-- A registered device type. -/
structure DeviceType where
  id : String
  code : Option String
  name : String
  deriving DecidableEq, Repr

namespace DeviceType

/-- Read a device type. -/
def reader : Reader DeviceType :=
  (DeviceType.mk <$> .required "id" .string
    <*> .optional "code" .string
    <*> .required "name" .string : RecordReader DeviceType).read

/-- Write a device type, without a code if it has none. -/
def toJson (deviceType : DeviceType) : Json :=
  let code := (deviceType.code.map fun code => ("code", Json.string code)).toList
  .object (code ++ [("id", .string deviceType.id), ("name", .string deviceType.name)])

/-- The names of the type that are not blank: its id, its code and its name. -/
def aliases (deviceType : DeviceType) : List String :=
  ([deviceType.id] ++ deviceType.code.toList ++ [deviceType.name]).filter fun name => !Text.isAllBlank name

/-- The type that a reference names: the first with this id, else with this code, else with this name. -/
def find? (types : List DeviceType) (reference : String) : Option DeviceType :=
  (types.find? fun type => type.id == reference) <|>
    (types.find? fun type => type.code == some reference) <|>
    (types.find? fun type => type.name == reference)

end DeviceType

/-- What a device type is registered from. -/
structure DeviceTypeDraft where
  /-- Generated if it is left out or blank. -/
  id : Option String
  code : Option String
  name : String
  deriving DecidableEq, Repr

namespace DeviceTypeDraft

/-- Read a draft. -/
def reader : Reader DeviceTypeDraft :=
  (DeviceTypeDraft.mk <$> .optional "id" .string
    <*> .optional "code" .string
    <*> .required "name" .string : RecordReader DeviceTypeDraft).read

/-- Write a draft. -/
def toJson (draft : DeviceTypeDraft) : Json :=
  .object
    [("code", (draft.code.map Json.string).getD .null),
      ("id", (draft.id.map Json.string).getD .null),
      ("name", .string draft.name)]

end DeviceTypeDraft

/-- The names that a reference to a device type stands for. -/
structure AliasSet where
  /-- The names in increasing order, each once. -/
  names : List String
  sorted : names.Pairwise (· < ·)
  deriving DecidableEq, Repr

namespace AliasSet

/-- Put a name in its place unless it is there already. -/
def insertName (name : String) : List String → List String
  | [] => [name]
  | head :: rest =>
    if name < head then name :: head :: rest
    else if name = head then head :: rest
    else head :: insertName name rest

/-- Inserting a name adds that name and no other. -/
theorem mem_insertName {name : String} {names : List String} {other : String} :
    other ∈ insertName name names ↔ other = name ∨ other ∈ names := by
  induction names with
  | nil => simp [insertName]
  | cons head rest ih =>
    simp only [insertName]
    split
    · simp
    · split
      · next h => subst h; simp
      · simp only [List.mem_cons, ih]
        grind

/-- Inserting a name keeps the order. -/
theorem sorted_insertName {name : String} {names : List String} (h : names.Pairwise (· < ·)) :
    (insertName name names).Pairwise (· < ·) := by
  induction names with
  | nil => simp [insertName]
  | cons head rest ih =>
    rw [List.pairwise_cons] at h
    simp only [insertName]
    split
    · next hlt =>
      simp only [List.pairwise_cons, List.mem_cons, forall_eq_or_imp]
      exact ⟨⟨hlt, fun other hother => String.lt_trans hlt (h.1 other hother)⟩, h⟩
    · split
      · exact List.pairwise_cons.2 h
      · next hlt hne =>
        refine List.pairwise_cons.2 ⟨fun other hother => ?_, ih h.2⟩
        rcases mem_insertName.1 hother with rfl | hother
        · exact Std.lt_of_le_of_ne hlt (Ne.symm hne)
        · exact h.1 other hother

/-- The set of the names in a list. -/
def ofList (names : List String) : AliasSet where
  names := names.foldr insertName []
  sorted := by
    induction names with
    | nil => simp
    | cons name names ih => exact sorted_insertName ih

/-- A reference that names no known type stands for itself alone. -/
def single (reference : String) : AliasSet := ofList [reference]

/-- A reference to a type stands for itself and the aliases of the type. -/
def ofDeviceType (deviceType : DeviceType) (reference : String) : AliasSet :=
  ofList (reference :: deviceType.aliases)

/-- Whether a name is in the set. -/
def contains (aliases : AliasSet) (name : String) : Bool := aliases.names.contains name

/-- How many names are in the set. -/
def size (aliases : AliasSet) : Nat := aliases.names.length

/-- Whether no name is in the set. -/
def isEmpty (aliases : AliasSet) : Bool := aliases.names.isEmpty

/-- A name is in the set of a list exactly if it is in the list. -/
theorem contains_ofList (names : List String) (name : String) :
    (ofList names).contains name = true ↔ name ∈ names := by
  simp only [contains, ofList, List.contains_iff_mem]
  induction names with
  | nil => simp
  | cons head names ih => simp [mem_insertName, ih]

end AliasSet

end TradeIn
