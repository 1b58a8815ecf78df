import TradeIn.Store.Call

/-!
# The store in memory

Rules under their ids in no particular order, device types in the order of their registration, and the revision of
the last write. Every insertion and every change of a rule takes the next revision; calls that are refused take
none.
-/

namespace TradeIn

/-- A store in memory. -/
structure MemoryStore where
  /-- The rules by id; the order has no meaning. -/
  rules : List (Int64 × Rule)
  deviceTypes : List DeviceType
  /-- The revision of the last write. -/
  revision : UInt64
  deriving DecidableEq, Repr

namespace MemoryStore

/-- A new store. -/
def empty : MemoryStore := ⟨[], [], 0⟩

/-- The rule under an id. -/
def rule? (store : MemoryStore) (id : Int64) : Option Rule := store.rules.lookup id

/-- Store a new rule under its id, unless the id is taken. -/
def insertRule (rule : Rule) (store : MemoryStore) : Except StoreError Rule × MemoryStore :=
  match store.rule? rule.id with
  | some _ => (.error (.duplicate (StoreError.ruleName rule.id)), store)
  | none =>
    let revision := store.revision + 1
    let stored := { rule with revision }
    (.ok stored, { store with rules := (rule.id, stored) :: store.rules, revision })

/-- Write a rule again with another activity, stamped with the next revision. -/
def updateRule (id : Int64) (rule : Rule) (active : Bool) (store : MemoryStore) : Rule × MemoryStore :=
  let revision := store.revision + 1
  let stored := { rule with isActive := active, revision }
  let rules := store.rules.map fun entry => if entry.1 = id then (id, stored) else entry
  (stored, { store with rules, revision })

/-- Set whether the rule under an id is active. -/
def setRuleActive (id : Int64) (active : Bool) (store : MemoryStore) : Except StoreError Rule × MemoryStore :=
  match store.rule? id with
  | none => (.error (.notFound (StoreError.ruleName id)), store)
  | some rule =>
    let written := store.updateRule id rule active
    (.ok written.1, written.2)

/-- Set whether the rule under an id is active, if it still has the given revision. -/
def setRuleActiveIf (id : Int64) (active : Bool) (revision : UInt64) (store : MemoryStore) :
    Except StoreError (Option Rule) × MemoryStore :=
  match store.rule? id with
  | none => (.error (.notFound (StoreError.ruleName id)), store)
  | some rule =>
    if rule.revision ≠ revision then (.ok none, store)
    else
      let written := store.updateRule id rule active
      (.ok (some written.1), written.2)

/-- Register a device type, unless its id is taken. -/
def insertDeviceType (deviceType : DeviceType) (store : MemoryStore) :
    Except StoreError DeviceType × MemoryStore :=
  if store.deviceTypes.any fun other => other.id == deviceType.id then
    (.error (.duplicate (StoreError.deviceTypeName deviceType.id)), store)
  else (.ok deviceType, { store with deviceTypes := store.deviceTypes ++ [deviceType] })

/-- The rules that a query asks for, newest first. -/
def listRules (store : MemoryStore) (query : RuleQuery) : List Rule :=
  Rule.newestFirst ((store.rules.map Prod.snd).filter query.accepts)

/-- Answer a call. -/
def serve : (request : StoreCall) → MemoryStore → request.Result × MemoryStore
  | .insertRule rule, store => store.insertRule rule
  | .findRule id, store => (.ok (store.rule? id), store)
  | .listRules query, store => (.ok (store.listRules query), store)
  | .setRuleActive id active, store => store.setRuleActive id active
  | .setRuleActiveIf id active revision, store => store.setRuleActiveIf id active revision
  | .insertDeviceType deviceType, store => store.insertDeviceType deviceType
  | .findDeviceType reference, store => (.ok (DeviceType.find? store.deviceTypes reference), store)
  | .listDeviceTypes, store => (.ok store.deviceTypes, store)

end MemoryStore

end TradeIn
