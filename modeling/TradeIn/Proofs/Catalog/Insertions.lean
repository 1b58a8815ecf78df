import TradeIn.Proofs.Catalog.InEffect
import TradeIn.Proofs.Store.Intact
import TradeIn.Quote.Pricing

/-!
# What operations insert

Only the creation of a rule inserts one, and its body is that of the draft (`Catalog.insertsOnly_createRule`). So every
other operation leaves a backend intact (`Backend.Intact.onBackend`), and a creation does if the body of the draft can be
read again.
-/

namespace TradeIn

/-- If the call inserts a rule, its body is an allowed one. -/
def StoreCall.InsertsOnly (allowed : Json → Prop) (request : StoreCall) : Prop :=
  ∀ rule, request = .insertRule rule → allowed rule.body

/-- An insertion inserts the body of its rule. -/
theorem StoreCall.insertsOnly_insertRule {allowed : Json → Prop} {rule : Rule} (h : allowed rule.body) :
    StoreCall.InsertsOnly allowed (.insertRule rule) := by
  rintro _ ⟨⟩
  exact h

/-- Other calls insert nothing. -/
theorem StoreCall.insertsOnly_of_ne {allowed : Json → Prop} {request : StoreCall} (h : ∀ rule, request ≠ .insertRule rule) :
    request.InsertsOnly allowed := fun rule heq => absurd heq (h rule)

/-- What is inserted by a call is allowed then. -/
theorem StoreCall.InsertsOnly.of_inserted? {allowed : Json → Prop} {request : StoreCall} (h : request.InsertsOnly allowed)
    {result : request.Result} : ∀ body ∈ request.inserted? result, allowed body := by
  intro body hbody
  obtain ⟨rule, hrequest, rfl⟩ := StoreCall.exists_of_inserted? hbody
  exact h rule hrequest

namespace StoreProgram

variable {α β σ : Type} {program : StoreProgram β} {next : β → StoreProgram α} {allowed : StoreCall → Prop}

/-- All calls that a program may make are allowed, whatever they are answered. -/
def AllCalls (allowed : StoreCall → Prop) : StoreProgram α → Prop
  | done _ => True
  | call request next => allowed request ∧ ∀ result, (next result).AllCalls allowed

/-- One program after the other makes the calls of both. -/
theorem AllCalls.andThen (h : program.AllCalls allowed) (hnext : ∀ value, (next value).AllCalls allowed) :
    (program.andThen next).AllCalls allowed := by
  induction program with
  | done value => exact hnext value
  | call request others ih => exact ⟨h.1, fun result => ih result (h.2 result)⟩

/-- What every allowed call keeps, a program keeps that makes no others. -/
theorem AllCalls.run_keeps {serve : (request : StoreCall) → σ → request.Result × σ} {kept : σ → Prop}
    (hserve : ∀ request store, allowed request → kept store → kept (serve request store).2)
    (h : program.AllCalls allowed) {store : σ} (hstore : kept store) : kept (program.run serve store).2 := by
  induction program generalizing store with
  | done value => exact hstore
  | call request others ih => exact ih _ (h.2 _) (hserve request store h.1 hstore)

end StoreProgram

namespace CatalogProgram

variable {α β : Type} {program : CatalogProgram β} {next : β → CatalogProgram α} {allowed : StoreCall → Prop}

/-- All calls that an operation may make are allowed. -/
def AllCalls (allowed : StoreCall → Prop) (program : CatalogProgram α) : Prop :=
  StoreProgram.AllCalls allowed program.run

/-- A result or an error is there without a call. -/
theorem allCalls_ofExcept (result : Except PricingError α) : (ofExcept result).AllCalls allowed := trivial

/-- Where it is a result, an operation goes on with it. -/
theorem allCalls_ofExcept_bind {result : Except PricingError β}
    (h : ∀ value, result = .ok value → (next value).AllCalls allowed) : (ofExcept result >>= next).AllCalls allowed := by
  cases result with
  | ok value => exact h value rfl
  | error error => trivial

/-- A given result is there without a call. -/
theorem allCalls_pure (value : α) : (pure value : CatalogProgram α).AllCalls allowed := trivial

/-- A single call has to be allowed itself. -/
theorem allCalls_demand {request : StoreCall} (h : allowed request) : (demand request).AllCalls allowed :=
  ⟨h, fun _ => trivial⟩

/-- A program that cannot fail makes its own calls. -/
theorem allCalls_ofProgram {program : StoreProgram α} (h : program.AllCalls allowed) :
    (ofProgram program).AllCalls allowed := h.andThen fun _ => trivial

/-- One operation after the other makes the calls of both. -/
theorem AllCalls.bind (h : program.AllCalls allowed) (hnext : ∀ value, (next value).AllCalls allowed) :
    (program >>= next).AllCalls allowed :=
  StoreProgram.AllCalls.andThen h fun result =>
    match result with
    | .ok value => hnext value
    | .error _ => trivial

end CatalogProgram

namespace Catalog

open CatalogProgram

variable {allowed : Json → Prop}

/-- Resolving a reference inserts nothing. -/
theorem insertsOnly_resolve (reference : String) : (resolve reference).AllCalls (StoreCall.InsertsOnly allowed) :=
  ⟨StoreCall.insertsOnly_of_ne (by simp), fun _ => trivial⟩

/-- Looking for a rule inserts nothing. -/
theorem insertsOnly_rule (id : Int64) : (Catalog.rule id).AllCalls (StoreCall.InsertsOnly allowed) := by
  refine (allCalls_demand (StoreCall.insertsOnly_of_ne (by simp))).bind fun found => ?_
  cases found <;> trivial

/-- Nor does listing rules. -/
theorem insertsOnly_rules (filter : RuleFilter) : (Catalog.rules filter).AllCalls (StoreCall.InsertsOnly allowed) :=
  allCalls_demand (StoreCall.insertsOnly_of_ne (by simp))

/-- Making rules inactive inserts nothing. -/
theorem insertsOnly_deactivate (losers : List Rule) : (deactivate losers).AllCalls (StoreCall.InsertsOnly allowed) := by
  induction losers with
  | nil => exact allCalls_pure ()
  | cons loser losers ih => exact (allCalls_demand (StoreCall.insertsOnly_of_ne (by simp))).bind fun _ => ih

/-- Settling siblings inserts nothing. -/
theorem insertsOnly_settleSiblings (rule : Rule) : (settleSiblings rule).AllCalls (StoreCall.InsertsOnly allowed) := by
  refine (allCalls_ofProgram (insertsOnly_resolve _)).bind fun aliases => ?_
  exact (allCalls_demand (StoreCall.insertsOnly_of_ne (by simp))).bind fun active => insertsOnly_deactivate _

/-- An activation inserts nothing. -/
theorem insertsOnly_activateRule (id : Int64) : (activateRule id).AllCalls (StoreCall.InsertsOnly allowed) := by
  refine (insertsOnly_rule id).bind fun target => ?_
  refine (allCalls_demand (StoreCall.insertsOnly_of_ne (by simp))).bind fun _ => ?_
  exact (insertsOnly_settleSiblings target).bind fun _ => insertsOnly_rule id

/-- A creation inserts the body of its draft. -/
theorem insertsOnly_createRule {draft : RuleDraft} (h : allowed draft.body) (id createdAt : Int64) :
    (createRule id createdAt draft).AllCalls (StoreCall.InsertsOnly allowed) := by
  refine allCalls_ofExcept_bind fun new haccept => ?_
  have hbody : allowed (new.stamped id createdAt).body := by
    rw [(eq_of_accept haccept).2]
    exact h
  refine (allCalls_demand (StoreCall.insertsOnly_insertRule hbody)).bind fun created => ?_
  split
  · exact (insertsOnly_settleSiblings created).bind fun _ => allCalls_pure created
  · exact allCalls_pure created

/-- A registration inserts no rule. -/
theorem insertsOnly_registerDeviceType (generated : Int64) (draft : DeviceTypeDraft) :
    (registerDeviceType generated draft).AllCalls (StoreCall.InsertsOnly allowed) :=
  (allCalls_ofExcept _).bind fun _ => allCalls_demand (StoreCall.insertsOnly_of_ne (by simp))

/-- Nor does listing device types. -/
theorem insertsOnly_deviceTypes : deviceTypes.AllCalls (StoreCall.InsertsOnly allowed) :=
  allCalls_demand (StoreCall.insertsOnly_of_ne (by simp))

/-- Looking for the rule in effect inserts nothing. -/
theorem insertsOnly_ruleInEffect (typeAlias kind : String) :
    (ruleInEffect typeAlias kind).AllCalls (StoreCall.InsertsOnly allowed) := by
  refine (allCalls_ofProgram (insertsOnly_resolve _)).bind fun aliases => ?_
  refine AllCalls.bind ?_ fun found => ?_
  · exact (allCalls_demand (StoreCall.insertsOnly_of_ne (by simp))).bind fun _ => allCalls_pure _
  · cases found <;> trivial

/-- A quote inserts nothing. -/
theorem insertsOnly_quote (defaultKind : String) (request : QuoteRequest) :
    (quote defaultKind request).AllCalls (StoreCall.InsertsOnly allowed) := by
  refine AllCalls.bind ?_ fun rule => allCalls_ofExcept _
  cases request.rule with
  | pinned id => exact insertsOnly_rule id
  | inEffect lookup =>
    rw [referencedRule]
    split
    · trivial
    · exact insertsOnly_ruleInEffect _ _

end Catalog

namespace Backend

variable {α : Type} {backend : Backend} {program : CatalogProgram α} {id : Int64}

/-- A backend is intact, and holds a rule wherever an earlier one did, with which it agrees on what can be read again. -/
structure Outlives (before after : Backend) : Prop where
  intact : after.Intact
  rereads_eq : after.Rereads = before.Rereads
  rule?_ne_none : ∀ id, before.rule? id ≠ none → after.rule? id ≠ none

/-- An operation leaves a backend intact if what it inserts can be read again, and no rule is lost by it. -/
theorem Intact.onBackend (h : backend.Intact) (hprogram : program.AllCalls (StoreCall.InsertsOnly backend.Rereads)) :
    backend.Outlives (program.onBackend backend).2 := by
  have hserve : ∀ request made, StoreCall.InsertsOnly backend.Rereads request → backend.Outlives made →
      backend.Outlives (made.serve request).2 := by
    rintro request made hrequest ⟨hintact, hsame, hrules⟩
    rw [← hsame] at hrequest
    exact ⟨hintact.serve request hrequest.of_inserted?, (rereads_serve request made).trans hsame,
      fun id hid => hintact.rule?_serve_ne_none (hrules id hid) request hrequest.of_inserted?⟩
  exact hprogram.run_keeps hserve ⟨h, rfl, fun _ hid => hid⟩

end Backend

end TradeIn
