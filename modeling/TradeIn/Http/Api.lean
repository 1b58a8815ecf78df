import TradeIn.Error.Api
import TradeIn.Http.Route
import TradeIn.Service

/-!
# The interface over HTTP

A request is routed by its path and its method, its id, query and body are read, and the operation is run. An error of
the operation is answered with its status and its envelope, a request that cannot be read with a bare status.
-/

namespace TradeIn.Http

/-- The version that the service reports. -/
def version : String := "0.1.0"

/-- The outcome of a request: an answer, an error of the operation, or a refusal. -/
inductive Outcome where
  | answer (body : Json)
  | failure (error : ApiError)
  | rejection (reason : Rejection)
  deriving DecidableEq, Repr

namespace Outcome

/-- The outcome of an operation whose result is written as given. -/
def ofResult {α : Type} (write : α → Json) : Except PricingError α → Outcome
  | .ok value => answer (write value)
  | .error error => failure (.ofPricing error)

/-- The response to a request with this outcome. -/
def response : Outcome → Response
  | answer body => ⟨200, some body⟩
  | failure error => ⟨error.code.status, some (ApiResponse.ofError error).toJson⟩
  | rejection reason => ⟨reason.status, none⟩

end Outcome

/-- An operation that a request is answered with. -/
abbrev Handler := Service → Outcome × Service

namespace Handler

/-- Refuse the request. -/
def reject (reason : Rejection) : Handler := fun service => (.rejection reason, service)

/-- Answer with a catalog operation. -/
def ofProgram {α : Type} (write : α → Json) (program : CatalogProgram α) : Handler := fun service =>
  let ran := service.run program
  (.ofResult write ran.1, ran.2)

/-- Answer with an operation on what a part of the request was read as. -/
def reading {α : Type} (read : Except Rejection α) (handler : α → Handler) : Handler :=
  match read with
  | .ok value => handler value
  | .error reason => reject reason

end Handler

/-- Write a list. -/
def listJson {α : Type} (write : α → Json) (values : List α) : Json := .array (values.map write)

/-- The id that a part of a path writes. -/
def readId (part : String) : Except Rejection Int64 :=
  match Text.int64? (decodePart part) with
  | some id => .ok id
  | none => .error .badRequest

/-- Read the query, which is refused as a whole if it does not fit. -/
def readQuery {α : Type} (reader : Reader α) (request : Request) : Except Rejection α :=
  (request.readQuery reader).mapError fun _ => .badRequest

/-- What the service says about itself. -/
def health (config : Config) : Json :=
  .object
    [("environment", .string config.environment), ("status", .string "ok"),
      ("storeBackend", .string config.backend.name), ("version", .string version)]

/-- Answer with the rule in effect for a device type. -/
def handleRuleInEffect (lookup : ActiveLookup) : Handler := fun service =>
  if Text.isAllBlank lookup.typeAlias then (.failure (.validation "typeAlias must not be blank"), service)
  else
    let kind := lookup.kind.getD service.config.defaultRuleKind
    Handler.ofProgram Rule.toJson (Catalog.ruleInEffect lookup.typeAlias kind) service

/-- The operation for a resource and a method that it takes. -/
def handle (now : Int64) (request : Request) (route : Route) : Handler :=
  match route, request.method with
  | .health, _ => fun service => (.answer (health service.config), service)
  | .deviceTypes, "POST" => .reading (request.readBody DeviceTypeDraft.reader) fun draft service =>
    let ran := service.registerDeviceType now draft
    (.ofResult DeviceType.toJson ran.1, ran.2)
  | .deviceTypes, _ => .ofProgram (listJson DeviceType.toJson) Catalog.deviceTypes
  | .rules, "POST" => .reading (request.readBody RuleDraft.reader) fun draft service =>
    let ran := service.createRule now draft
    (.ofResult (fun rule => (RuleCreated.mk rule.id).toJson) ran.1, ran.2)
  | .rules, _ => .reading (readQuery RuleFilter.reader request) fun filter =>
    .ofProgram (listJson Rule.toJson) (Catalog.rules filter)
  | .ruleInEffect, _ => .reading (readQuery ActiveLookup.reader request) handleRuleInEffect
  | .rule id, _ => .reading (readId id) fun id => .ofProgram Rule.toJson (Catalog.rule id)
  | .activation id, _ => .reading (readId id) fun id =>
    .ofProgram (fun rule => (RuleActivation.ofRule rule).toJson) (Catalog.activateRule id)
  | .price, _ => .reading (request.readBody QuoteRequest.reader) fun quoteRequest service =>
    let ran := service.quote quoteRequest
    (.ofResult Quote.toJson ran.1, ran.2)
  | .recompute, _ => .reading (request.readBody RecomputeRequest.reader) fun recompute service =>
    (.ofResult Quote.toJson recompute.quote, service)

/-- Answer a request at the time that the clock shows. Any path takes `OPTIONS`, and a response to `HEAD` has no
body. -/
def respond (now : Int64) (request : Request) (service : Service) : Response × Service :=
  if request.method = "OPTIONS" then (⟨200, none⟩, service)
  else match Route.ofPath? request.path with
    | none => (⟨Rejection.notFound.status, none⟩, service)
    | some route =>
      if route.methods.contains request.method then
        let handled := handle now request route service
        let response := handled.1.response
        ({ response with body := if request.method = "HEAD" then none else response.body }, handled.2)
      else (⟨Rejection.methodNotAllowed.status, none⟩, service)

end TradeIn.Http
