import TradeIn.Http.Api
import TradeIn.Proofs.Catalog.Insertions
import TradeIn.Proofs.Rule.Record

/-!
# What requests leave in the store

The body of a rule that comes in a request is read from a text, and nested less deep than what a text may hold. So its
document can be read again, and whatever calls keep that insert no deeper body is kept by every request
(`Http.respond_keeps`). A service that is started and answers requests, and nothing else, never holds a rule that cannot be
read (`Http.exists_reachable_respondAll`).
-/

namespace TradeIn

/-- A body leaves room for the document of a rule around it, in a text that is read again. -/
def Json.IsShallow (body : Json) : Prop := body.nesting < Parsed.maxDepth

section Stores

variable {α : Type} {kept : Backend → Prop} {request : StoreCall} {store : GuardedStore} {service : Service}

/-- Calls keep a property of a backend as long as they insert no rule that could not be read again. -/
def Backend.IsKept (kept : Backend → Prop) : Prop :=
  ∀ (request : StoreCall) (backend : Backend), request.InsertsOnly Json.IsShallow → kept backend →
    kept (backend.serve request).2

/-- What calls have made of a new backend, without a rule that cannot be read. -/
theorem Backend.isKept_reachable :
    Backend.IsKept fun backend => (∃ count, backend.Reachable count) ∧ backend.Readable := by
  rintro request backend hrequest ⟨⟨count, hreachable⟩, hreadable⟩
  refine ⟨⟨_, hreachable.serve request⟩, ?_⟩
  rw [hreachable.filed.readable_serve_iff]
  refine ⟨hreadable, fun body hbody => ?_⟩
  have hshallow := hrequest.of_inserted? body hbody
  cases backend with
  | memory store => trivial
  | tables store => exact hshallow

/-- Another writer only sets whether a rule is active. -/
theorem GuardedStore.interrupt_keeps (hkept : Backend.IsKept kept) (id : Int64) (active : Bool)
    {listed : Except StoreError α × GuardedStore} (h : kept listed.2.backend) :
    kept (interrupt id active listed).2.backend := by
  obtain ⟨result, store⟩ := listed
  cases result with
  | error error => exact h
  | ok rules =>
    have hwritten := hkept (.setRuleActive id active) store.backend (StoreCall.insertsOnly_of_ne (by simp)) h
    simp only [interrupt]
    split
    · exact hwritten
    · exact hwritten

/-- Faults do not change what calls keep. -/
theorem GuardedStore.serve_keeps (hkept : Backend.IsKept kept) (hrequest : request.InsertsOnly Json.IsShallow)
    (h : kept store.backend) : kept (store.serve request).2.backend := by
  rw [serve]
  split
  · exact h
  · exact h
  · exact interrupt_keeps hkept _ _ (hkept request store.backend hrequest h)
  · exact hkept request store.backend hrequest h

/-- An operation keeps what its calls keep. -/
theorem Service.run_keeps (hkept : Backend.IsKept kept) {program : CatalogProgram α}
    (hprogram : program.AllCalls (StoreCall.InsertsOnly Json.IsShallow)) (h : kept service.store.backend) :
    kept (service.run program).2.store.backend := by
  have hserve : ∀ request (store : GuardedStore), request.InsertsOnly Json.IsShallow → kept store.backend →
      kept (GuardedStore.serve request store).2.backend := fun _ _ => GuardedStore.serve_keeps hkept
  exact hprogram.run_keeps hserve h

/-- A generated id makes no difference. -/
theorem Service.runWithId_keeps (hkept : Backend.IsKept kept) (needed : Bool) (now : Int64)
    {operation : Int64 → CatalogProgram α}
    (hoperation : ∀ id, (operation id).AllCalls (StoreCall.InsertsOnly Json.IsShallow))
    (h : kept service.store.backend) : kept (service.runWithId needed now operation).2.store.backend := by
  rw [runWithId]
  cases needed with
  | true => exact run_keeps hkept (hoperation _) h
  | false => exact run_keeps hkept (hoperation _) h

/-- The creation of a rule keeps what calls keep, if the body of its draft can be read again. -/
theorem Service.createRule_keeps (hkept : Backend.IsKept kept) (now : Int64) {draft : RuleDraft}
    (hbody : draft.body.IsShallow) (h : kept service.store.backend) :
    kept (service.createRule now draft).2.store.backend :=
  runWithId_keeps hkept _ now (fun id => Catalog.insertsOnly_createRule hbody id now) h

/-- The registration of a device type keeps it. -/
theorem Service.registerDeviceType_keeps (hkept : Backend.IsKept kept) (now : Int64) (draft : DeviceTypeDraft)
    (h : kept service.store.backend) : kept (service.registerDeviceType now draft).2.store.backend :=
  runWithId_keeps hkept _ now (fun id => Catalog.insertsOnly_registerDeviceType id draft) h

end Stores

namespace Http

variable {α : Type} {kept : Backend → Prop} {handler : Handler}

/-- What is kept before a request is kept after it. -/
def Handler.Keeps (kept : Backend → Prop) (handler : Handler) : Prop :=
  ∀ service : Service, kept service.store.backend → kept (handler service).2.store.backend

/-- The operation on what is read need only keep it where something is read. -/
theorem Handler.keeps_reading {read : Except Rejection α} {handler : α → Handler}
    (h : ∀ value, read = .ok value → (handler value).Keeps kept) : (reading read handler).Keeps kept := by
  cases read with
  | ok value => exact h value rfl
  | error reason => exact fun _ hservice => hservice

/-- A catalog operation keeps what its calls keep. -/
theorem Handler.keeps_ofProgram (hkept : Backend.IsKept kept) (write : α → Json) {program : CatalogProgram α}
    (hprogram : program.AllCalls (StoreCall.InsertsOnly Json.IsShallow)) : (ofProgram write program).Keeps kept :=
  fun _ hservice => Service.run_keeps hkept hprogram hservice

/-- The body of a draft that a request brings can be read again in the document of a rule. -/
theorem isShallow_of_readBody {request : Request} {draft : RuleDraft}
    (h : request.readBody RuleDraft.reader = .ok draft) : draft.body.IsShallow := by
  rw [Request.readBody] at h
  split at h
  · cases h
  · split at h
    · cases h
    · cases hread : Reader.ofText RuleDraft.reader request.body with
      | error fault => rw [hread] at h; cases h
      | ok read =>
        rw [hread] at h
        obtain rfl := Except.ok.inj h
        exact RuleDraft.nesting_body_lt_of_ofText hread

/-- Looking for the rule in effect keeps what calls keep. -/
theorem keeps_handleRuleInEffect (hkept : Backend.IsKept kept) (lookup : ActiveLookup) :
    (handleRuleInEffect lookup).Keeps kept := by
  intro service hservice
  rw [handleRuleInEffect]
  split
  · exact hservice
  · exact Handler.keeps_ofProgram hkept _ (Catalog.insertsOnly_ruleInEffect _ _) service hservice

/-- Every operation keeps what calls keep, as the creation of a rule inserts the body that the request brought. -/
theorem keeps_handle (hkept : Backend.IsKept kept) (now : Int64) (request : Request) (route : Route) :
    (handle now request route).Keeps kept := by
  unfold handle
  split
  · exact fun _ hservice => hservice
  · exact Handler.keeps_reading fun draft _ _ hservice => Service.registerDeviceType_keeps hkept now draft hservice
  · exact Handler.keeps_ofProgram hkept _ Catalog.insertsOnly_deviceTypes
  · refine Handler.keeps_reading fun draft hread _ hservice => ?_
    exact Service.createRule_keeps hkept now (isShallow_of_readBody hread) hservice
  · exact Handler.keeps_reading fun filter _ => Handler.keeps_ofProgram hkept _ (Catalog.insertsOnly_rules filter)
  · exact Handler.keeps_reading fun lookup _ => keeps_handleRuleInEffect hkept lookup
  · exact Handler.keeps_reading fun id _ => Handler.keeps_ofProgram hkept _ (Catalog.insertsOnly_rule id)
  · exact Handler.keeps_reading fun id _ => Handler.keeps_ofProgram hkept _ (Catalog.insertsOnly_activateRule id)
  · exact Handler.keeps_reading fun quoteRequest _ service hservice =>
      Service.run_keeps hkept (Catalog.insertsOnly_quote service.config.defaultRuleKind quoteRequest) hservice
  · exact Handler.keeps_reading fun _ _ _ hservice => hservice

/-- Whatever a request asks for, what calls keep is kept by its answer. -/
theorem respond_keeps (hkept : Backend.IsKept kept) (now : Int64) (request : Request) {service : Service}
    (h : kept service.store.backend) : kept (respond now request service).2.store.backend := by
  rw [respond]
  split
  · exact h
  · split
    · exact h
    · split
      · exact keeps_handle hkept now request _ service h
      · exact h

/-- The service after requests, each with the time of its arrival. -/
def respondAll (requests : List (Int64 × Request)) (service : Service) : Service :=
  requests.foldl (fun service request => (respond request.1 request.2 service).2) service

/-- So it is by the answers to any requests. -/
theorem respondAll_keeps (hkept : Backend.IsKept kept) (requests : List (Int64 × Request)) {service : Service}
    (h : kept service.store.backend) : kept (respondAll requests service).store.backend := by
  induction requests generalizing service with
  | nil => exact h
  | cons request requests ih => exact ih (respond_keeps hkept request.1 request.2 h)

section Started

variable {config : Config} {service : Service}

/-- A service starts with a new store. -/
theorem backend_of_start (h : Service.start config = .ok service) :
    service.store.backend = .memory .empty ∨ service.store.backend = .tables .empty := by
  rw [Service.start] at h
  split at h
  · obtain rfl := Except.ok.inj h
    exact .inl rfl
  · split at h
    · cases h
    · split at h
      · cases h
      · split at h
        · cases h
        · obtain rfl := Except.ok.inj h
          exact .inr rfl

/-- The state in which requests leave a started service is one that calls lead to, and all rules in it can be read. -/
theorem exists_reachable_respondAll (h : Service.start config = .ok service) (requests : List (Int64 × Request)) :
    (∃ count, (respondAll requests service).store.backend.Reachable count) ∧
      (respondAll requests service).store.backend.Readable := by
  refine respondAll_keeps Backend.isKept_reachable requests ?_
  rcases backend_of_start h with hnew | hnew
  · rw [hnew]
    exact ⟨⟨0, .newMemory⟩, trivial⟩
  · rw [hnew]
    exact ⟨⟨0, .newTables⟩, by decide⟩

/-- So its rules can be listed after any requests. -/
theorem exists_allRules_respondAll (h : Service.start config = .ok service) (requests : List (Int64 × Request)) :
    ∃ rules, (respondAll requests service).allRules = .ok rules := by
  obtain ⟨⟨_, hreachable⟩, hreadable⟩ := exists_reachable_respondAll h requests
  exact (hreachable.filed.listRules_isOk_iff _).2 hreadable

end Started

end Http

end TradeIn
