import TradeIn.Proofs.Catalog.Insertions
import TradeIn.Proofs.Catalog.Takeover

/-!
# Refusals

What a backend or the catalog is asked to write can be refused, each request for reasons of its own (`Attempt.Refused`). In
every state that calls can leave either backend in and in which all stored rules can be read, it is refused exactly for
these reasons, and a refusal leaves the whole backend as it was, its counters included. Requests that are refused can
therefore be left out of a run: the others get the same answers, and leave the same backend. One failure is no refusal: an
active rule whose body cannot be read again is stored before its siblings are settled, and that fails
(`Catalog.exists_onBackend_createRule_eq_error`).
-/

namespace TradeIn

/-- A request to write, to a backend or to the catalog. -/
inductive Attempt where
  | insertRule (rule : Rule)
  | setRuleActive (id : Int64) (active : Bool)
  | setRuleActiveIf (id : Int64) (active : Bool) (revision : UInt64)
  | insertDeviceType (deviceType : DeviceType)
  | createRule (id createdAt : Int64) (draft : RuleDraft)
  | activateRule (id : Int64)
  | registerDeviceType (generated : Int64) (draft : DeviceTypeDraft)

/-- The answer to a request to write. -/
inductive Reply where
  | rule (rule : Rule)
  | deviceType (deviceType : DeviceType)
  /-- The rule has another revision than the expected one. -/
  | otherRevision
  /-- The backend refuses. -/
  | storeError (error : StoreError)
  /-- The catalog refuses. -/
  | pricingError (error : PricingError)
  deriving DecidableEq, Repr

namespace Reply

/-- Whether the request was refused. -/
def isRefusal : Reply → Bool
  | rule _ => false
  | deviceType _ => false
  | otherRevision => true
  | storeError _ => true
  | pricingError _ => true

/-- The answer of a backend. -/
def ofStore {α : Type} (accepted : α → Reply) : Except StoreError α → Reply
  | .ok answer => accepted answer
  | .error error => storeError error

/-- The answer of a backend to a conditional write. -/
def ofConditional : Option Rule → Reply
  | some written => rule written
  | none => otherRevision

/-- The answer of the catalog. -/
def ofCatalog {α : Type} (accepted : α → Reply) : Except PricingError α → Reply
  | .ok answer => accepted answer
  | .error error => pricingError error

end Reply

namespace Attempt

/-- The answer to a request that has a working backend to itself, and the backend after it. -/
def on : Attempt → Backend → Reply × Backend
  | insertRule rule, backend =>
    let answered := backend.serve (.insertRule rule)
    (.ofStore .rule answered.1, answered.2)
  | setRuleActive id active, backend =>
    let answered := backend.serve (.setRuleActive id active)
    (.ofStore .rule answered.1, answered.2)
  | setRuleActiveIf id active revision, backend =>
    let answered := backend.serve (.setRuleActiveIf id active revision)
    (.ofStore .ofConditional answered.1, answered.2)
  | insertDeviceType deviceType, backend =>
    let answered := backend.serve (.insertDeviceType deviceType)
    (.ofStore .deviceType answered.1, answered.2)
  | createRule id createdAt draft, backend =>
    let answered := (Catalog.createRule id createdAt draft).onBackend backend
    (.ofCatalog .rule answered.1, answered.2)
  | activateRule id, backend =>
    let answered := (Catalog.activateRule id).onBackend backend
    (.ofCatalog .rule answered.1, answered.2)
  | registerDeviceType generated draft, backend =>
    let answered := (Catalog.registerDeviceType generated draft).onBackend backend
    (.ofCatalog .deviceType answered.1, answered.2)

/-- The reasons for a refusal, each with the answer that gives it. -/
inductive Refused (backend : Backend) : Attempt → Reply → Prop
  | takenRule {rule taken : Rule} (htaken : backend.rule? rule.id = some taken) :
    Refused backend (insertRule rule) (.storeError (.duplicate (StoreError.ruleName rule.id)))
  | unknownRule {id : Int64} {active : Bool} (hunknown : backend.rule? id = none) :
    Refused backend (setRuleActive id active) (.storeError (.notFound (StoreError.ruleName id)))
  | unknownRuleIf {id : Int64} {active : Bool} {revision : UInt64} (hunknown : backend.rule? id = none) :
    Refused backend (setRuleActiveIf id active revision) (.storeError (.notFound (StoreError.ruleName id)))
  | otherRevision {id : Int64} {active : Bool} {revision : UInt64} {rule : Rule} (hrule : backend.rule? id = some rule)
    (hother : rule.revision ≠ revision) : Refused backend (setRuleActiveIf id active revision) .otherRevision
  | takenDeviceType {deviceType taken : DeviceType} (htaken : taken ∈ backend.deviceTypes)
    (hid : taken.id = deviceType.id) :
    Refused backend (insertDeviceType deviceType) (.storeError (.duplicate (StoreError.deviceTypeName deviceType.id)))
  | blankAlias {id createdAt : Int64} {draft : RuleDraft} (halias : Text.isAllBlank draft.typeAlias = true) :
    Refused backend (createRule id createdAt draft) (.pricingError (.validation "typeAlias must not be blank"))
  | blankKind {id createdAt : Int64} {draft : RuleDraft} (halias : Text.isAllBlank draft.typeAlias = false)
    (hkind : Text.isAllBlank draft.kind = true) :
    Refused backend (createRule id createdAt draft) (.pricingError (.validation "kind must not be blank"))
  | versionBelowOne {id createdAt : Int64} {draft : RuleDraft} {version : Int64}
    (halias : Text.isAllBlank draft.typeAlias = false) (hkind : Text.isAllBlank draft.kind = false)
    (hversion : draft.version = some version) (hlow : version < 1) :
    Refused backend (createRule id createdAt draft)
      (.pricingError (.validation s!"version must be >= 1, got {version}"))
  | noObject {id createdAt : Int64} {draft : RuleDraft} (halias : Text.isAllBlank draft.typeAlias = false)
    (hkind : Text.isAllBlank draft.kind = false) (hversion : ∀ version, draft.version = some version → 1 ≤ version)
    (hbody : draft.body.isObject = false) :
    Refused backend (createRule id createdAt draft) (.pricingError (.validation "body must be a JSON object"))
  | takenCreated {id createdAt : Int64} {draft : RuleDraft} {new : NewRule} {taken : Rule}
    (haccept : draft.accept = .ok new) (htaken : backend.rule? id = some taken) :
    Refused backend (createRule id createdAt draft) (.pricingError (.conflict (StoreError.ruleName id)))
  | unknownTarget {id : Int64} (hunknown : backend.rule? id = none) :
    Refused backend (activateRule id) (.pricingError (.ruleNotFound id))
  | blankName {generated : Int64} {draft : DeviceTypeDraft} (hname : Text.isAllBlank draft.name = true) :
    Refused backend (registerDeviceType generated draft) (.pricingError (.validation "name must not be blank"))
  | takenRegistered {generated : Int64} {draft : DeviceTypeDraft} {new : NewDeviceType} {taken : DeviceType}
    (haccept : draft.accept = .ok new) (htaken : taken ∈ backend.deviceTypes)
    (hid : taken.id = (new.withId generated).id) :
    Refused backend (registerDeviceType generated draft)
      (.pricingError (.conflict (StoreError.deviceTypeName (new.withId generated).id)))

/-- If the request inserts a rule, its body is an allowed one. -/
def InsertsOnly (allowed : Json → Prop) : Attempt → Prop
  | insertRule rule => allowed rule.body
  | createRule _ _ draft => allowed draft.body
  | _ => True

/-- The answers to requests made one after the other, and the backend after them. -/
def onAll : List Attempt → Backend → List Reply × Backend
  | [], backend => ([], backend)
  | attempt :: attempts, backend =>
    let answered := attempt.on backend
    let rest := onAll attempts answered.2
    (answered.1 :: rest.1, rest.2)

/-- The requests that are not refused when all are made one after the other. -/
def accepted : List Attempt → Backend → List Attempt
  | [], _ => []
  | attempt :: attempts, backend =>
    let answered := attempt.on backend
    let rest := accepted attempts answered.2
    if answered.1.isRefusal then rest else attempt :: rest

end Attempt

namespace Catalog

open CatalogProgram

variable {α β : Type} {backend made after : Backend} {id : Int64}

/-- An operation ends with an error. -/
theorem onBackend_bind_of_error {program : CatalogProgram β} {next : β → CatalogProgram α} {error : PricingError}
    (h : program.onBackend backend = (.error error, made)) :
    (program >>= next).onBackend backend = (.error error, made) := run_bind_of_error h

/-- A call that fails gives its error. -/
theorem onBackend_demand_of_error {request : StoreCall} {error : StoreError}
    (h : backend.serve request = (.error error, made)) :
    (demand request).onBackend backend = (.error (.ofStore error), made) := by
  change ((backend.serve request).1.mapError PricingError.ofStore, (backend.serve request).2) = _
  rw [h]
  rfl

/-- Resolving a reference never fails and changes nothing. -/
theorem run_resolve_eq (backend : Backend) (reference : String) :
    (resolve reference).run Backend.serve backend = (resolvedOn backend reference, backend) := by
  cases backend <;> rfl

/-- A rule that is inserted is as active as it is meant to be. -/
theorem isActive_of_serve_insertRule {rule stored : Rule}
    (hserved : backend.serve (.insertRule rule) = (.ok stored, after)) :
    stored.isActive = rule.isActive := by
  have hanswer := congrArg Prod.fst hserved
  cases backend with
  | memory store =>
    cases hfound : store.rule? rule.id with
    | none =>
      rw [Backend.serve_memory (MemoryStore.serve_insertRule_of_none hfound)] at hanswer
      rw [← Except.ok.inj hanswer]
    | some taken =>
      rw [Backend.serve_memory (MemoryStore.serve_insertRule_of_some hfound)] at hanswer
      cases hanswer
  | tables store =>
    rcases hfound : store.rule? rule.id with error | _ | taken
    · rw [Backend.serve_tables (TableStore.serve_insertRule_of_error hfound)] at hanswer
      cases hanswer
    · rw [Backend.serve_tables (TableStore.serve_insertRule_of_none hfound)] at hanswer
      rw [← Except.ok.inj hanswer]
      rfl
    · rw [Backend.serve_tables (TableStore.serve_insertRule_of_some hfound)] at hanswer
      cases hanswer

/-- Siblings are not settled where some rule cannot be read. -/
theorem exists_onBackend_settleSiblings_eq_error (h : backend.Filed) (hnot : ¬backend.Readable) (rule : Rule) :
    ∃ column, (settleSiblings rule).onBackend backend =
      (.error (.ofStore (.serialization (.tooDeep column))), backend) := by
  obtain ⟨column, hlisted⟩ := h.exists_serve_listRules_eq_error hnot
    (RuleQuery.ofAliases (resolvedOn backend rule.typeAlias) rule.kind).onlyActive
  refine ⟨column, ?_⟩
  unfold settleSiblings
  refine (onBackend_bind_of_ok (onBackend_ofProgram (run_resolve_eq backend rule.typeAlias))).trans ?_
  exact onBackend_bind_of_error (onBackend_demand_of_error hlisted)

/-- A rule that is created as active with a body that cannot be read again is stored, and only then does its creation
fail. -/
theorem exists_onBackend_createRule_eq_error (h : backend.Intact) (createdAt : Int64) {draft : RuleDraft} {new : NewRule}
    (haccept : draft.accept = .ok new) (hactive : new.isActive = true) (hfree : backend.rule? id = none)
    (hbody : ¬backend.Rereads new.body) :
    ∃ column, (createRule id createdAt draft).onBackend backend =
      (.error (.ofStore (.serialization (.tooDeep column))),
        (backend.serve (.insertRule (new.stamped id createdAt))).2) := by
  have hfree : backend.rule? (new.stamped id createdAt).id = none := hfree
  obtain ⟨created, made, hmade⟩ := h.exists_serve_insertRule hfree
  have hcreated : created.isActive = true := by
    rw [isActive_of_serve_insertRule hmade]
    exact hactive
  have hfiled := h.filed.serve (.insertRule (new.stamped id createdAt))
  have hiff := h.filed.readable_serve_iff (.insertRule (new.stamped id createdAt))
  rw [hmade] at hfiled hiff ⊢
  have hnot : ¬made.Readable := fun hreadable => hbody ((hiff.1 hreadable).2 _ rfl)
  obtain ⟨column, hsettled⟩ := exists_onBackend_settleSiblings_eq_error hfiled hnot created
  rw [onBackend_createRule_of_active haccept hmade hcreated]
  exact ⟨column, onBackend_bind_of_error hsettled⟩

section Registration

variable {generated : Int64} {draft : DeviceTypeDraft} {new : NewDeviceType} {taken : DeviceType}

/-- A registration that is accepted is answered as the backend answers it. -/
theorem onBackend_registerDeviceType_of_accepted (haccept : draft.accept = .ok new) :
    (registerDeviceType generated draft).onBackend backend =
      (demand (.insertDeviceType (new.withId generated))).onBackend backend :=
  onBackend_bind_of_ok (onBackend_ofExcept haccept)

/-- No device type is registered under a taken id. -/
theorem onBackend_registerDeviceType_of_taken (h : backend.Filed) (haccept : draft.accept = .ok new)
    (htaken : taken ∈ backend.deviceTypes) (hid : taken.id = (new.withId generated).id) :
    (registerDeviceType generated draft).onBackend backend =
      (.error (.conflict (StoreError.deviceTypeName (new.withId generated).id)), backend) := by
  rw [onBackend_registerDeviceType_of_accepted haccept]
  exact onBackend_demand_of_error (h.serve_insertDeviceType_of_mem htaken hid)

end Registration

end Catalog

namespace Attempt

variable {backend : Backend} {attempt : Attempt} {reply : Reply}

/-- The answer that gives a reason is a refusal. -/
theorem Refused.isRefusal (h : Refused backend attempt reply) : reply.isRefusal = true := by cases h <;> rfl

/-- A rule with an empty body. -/
private def plainRule (id : Int64) : Rule where
  id
  typeAlias := "PHONE"
  kind := Rule.pricingKind
  version := 1
  isActive := false
  body := .object []
  createdAt := 10
  revision := 0

end Attempt

end TradeIn
