import TradeIn.Json.Rereading
import TradeIn.Store.Call
import TradeIn.Store.Table

/-!
# The store in tables

Three tables: rules as documents under their ids, device types as documents under their place in the order of
registration, and counters under their names. A document is kept as text, so what is read is what its text holds
(`Json.reread?`). Any document is written, but one that nests arrays and objects too deep is not read again, and every
call that has to read it fails. A call reads and writes documents inside one transaction: the new tables take the place
of the old ones when the call succeeds, and a call that is refused leaves the old ones. Opening the tables again keeps
what they hold.
-/

namespace TradeIn

/-- The key of a device type: its place in the order of registration, and its id. -/
structure DeviceTypeKey where
  place : UInt64
  id : String
  deriving DecidableEq, Repr

instance : LT DeviceTypeKey where
  lt a b := a.place < b.place ∨ (a.place = b.place ∧ a.id < b.id)

instance : DecidableLT DeviceTypeKey := fun a b =>
  inferInstanceAs (Decidable (a.place < b.place ∨ (a.place = b.place ∧ a.id < b.id)))

/-- A store in tables. -/
structure TableStore where
  /-- The documents of the rules. -/
  rules : Table Int64 Json
  /-- The documents of the device types. -/
  deviceTypes : Table DeviceTypeKey Json
  /-- The counters that number writes and registrations. -/
  counters : Table String UInt64
  deriving DecidableEq, Repr

namespace TableStore

/-- The counter of writes to rules. -/
def revisionCounter : String := "revision"

/-- The counter of registrations of device types. -/
def placeCounter : String := "device_type_seq"

/-- The counters with one of them set to zero if it is not there. -/
def withCounter (name : String) (counters : Table String UInt64) : Table String UInt64 :=
  match Table.get? counters name with
  | some _ => counters
  | none => Table.put name 0 counters

/-- Open tables, which may be new or hold what was stored before. -/
def reopen (store : TableStore) : TableStore :=
  { store with counters := withCounter placeCounter (withCounter revisionCounter store.counters) }

/-- New tables. -/
def empty : TableStore := reopen ⟨[], [], []⟩

/-- Why the text of a document is not read. One that nests too deep has its fault at the first bracket too many. Other
documents that are not read are not those of a record, so no call writes them. -/
def faultIn (document : Json) : DocumentFault :=
  match document.excess? 0 Parsed.maxDepth with
  | some column => .tooDeep column
  | none => .ofDescription "not the document of a record"

/-- Read a document from its text. -/
def decode {α : Type} (reader : Reader α) (document : Json) : Except StoreError α :=
  match document.reread?.bind reader.ofJson? with
  | some value => .ok value
  | none => .error (.serialization (faultIn document))

/-- The rule under an id. -/
def rule? (store : TableStore) (id : Int64) : Except StoreError (Option Rule) :=
  match Table.get? store.rules id with
  | none => .ok none
  | some document => do return some (← decode Rule.reader document)

/-- The next value of a counter. -/
def nextCount (store : TableStore) (name : String) : UInt64 := (Table.get? store.counters name).getD 0 + 1

/-- Write the document of a rule, stamped with the next revision. -/
def writeRule (rule : Rule) (store : TableStore) : Rule × TableStore :=
  let revision := store.nextCount revisionCounter
  let stored := { rule with revision }
  (stored,
    { store with
      rules := Table.put stored.id stored.document store.rules
      counters := Table.put revisionCounter revision store.counters })

/-- Run a transaction: a failure leaves the tables as they were. -/
def commit {α : Type} (store : TableStore) (transaction : Except StoreError (α × TableStore)) :
    Except StoreError α × TableStore :=
  match transaction with
  | .ok (answer, written) => (.ok answer, written)
  | .error error => (.error error, store)

/-- Store a new rule under its id, unless the id is taken. -/
def insertRule (rule : Rule) (store : TableStore) : Except StoreError (Rule × TableStore) := do
  match ← store.rule? rule.id with
  | some _ => .error (.duplicate (StoreError.ruleName rule.id))
  | none => return store.writeRule rule

/-- The rule under an id, which must be there. -/
def existingRule (store : TableStore) (id : Int64) : Except StoreError Rule := do
  match ← store.rule? id with
  | some rule => return rule
  | none => .error (.notFound (StoreError.ruleName id))

/-- Set whether the rule under an id is active. -/
def setRuleActive (id : Int64) (active : Bool) (store : TableStore) :
    Except StoreError (Rule × TableStore) := do
  let rule ← store.existingRule id
  return store.writeRule { rule with isActive := active }

/-- Set whether the rule under an id is active, if it still has the given revision. -/
def setRuleActiveIf (id : Int64) (active : Bool) (revision : UInt64) (store : TableStore) :
    Except StoreError (Option Rule × TableStore) := do
  let rule ← store.existingRule id
  if rule.revision ≠ revision then return (none, store)
  else
    let written := store.writeRule { rule with isActive := active }
    return (some written.1, written.2)

/-- The device types in the order of their registration. -/
def deviceTypeList (store : TableStore) : Except StoreError (List DeviceType) :=
  store.deviceTypes.mapM fun row => decode DeviceType.reader row.2

/-- Register a device type, unless its id is taken. -/
def insertDeviceType (deviceType : DeviceType) (store : TableStore) :
    Except StoreError (DeviceType × TableStore) :=
  if store.deviceTypes.any fun row => row.1.id == deviceType.id then
    .error (.duplicate (StoreError.deviceTypeName deviceType.id))
  else
    let place := store.nextCount placeCounter
    .ok (deviceType,
      { store with
        deviceTypes := Table.put ⟨place, deviceType.id⟩ deviceType.toJson store.deviceTypes
        counters := Table.put placeCounter place store.counters })

/-- The rules that a query asks for, newest first. -/
def listRules (store : TableStore) (query : RuleQuery) : Except StoreError (List Rule) := do
  let rules ← store.rules.mapM fun row => decode Rule.reader row.2
  return Rule.newestFirst (rules.filter query.accepts)

/-- Answer a call. -/
def serve : (request : StoreCall) → TableStore → request.Result × TableStore
  | .insertRule rule, store => store.commit (store.insertRule rule)
  | .findRule id, store => (store.rule? id, store)
  | .listRules query, store => (store.listRules query, store)
  | .setRuleActive id active, store => store.commit (store.setRuleActive id active)
  | .setRuleActiveIf id active revision, store => store.commit (store.setRuleActiveIf id active revision)
  | .insertDeviceType deviceType, store => store.commit (store.insertDeviceType deviceType)
  | .findDeviceType reference, store =>
    (store.deviceTypeList.map fun types => DeviceType.find? types reference, store)
  | .listDeviceTypes, store => (store.deviceTypeList, store)

end TableStore

end TradeIn
