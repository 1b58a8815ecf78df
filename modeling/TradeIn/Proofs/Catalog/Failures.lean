import TradeIn.Proofs.Catalog.Alone
import TradeIn.Quote.Pricing

/-!
# Operations whose calls fail

A store that cannot be reached fails a call without doing anything. Any calls of an operation may fail in this way. The
operation then ends at once and says that the store is unavailable, with one exception: where the look-up of a device
type fails, the reference stands for itself alone, just as if no type were registered. So an operation that does not end
as unavailable has had all its calls answered, or all but that look-up, and does what it does without failures where its
look-up finds no type.
-/

namespace TradeIn

/-- A store some calls to which fail. -/
structure FailingStore (σ : Type) where
  store : σ
  /-- How many calls were made. -/
  calls : Nat
  /-- The calls that failed, the latest first. -/
  failed : List StoreCall

namespace FailingStore

variable {σ : Type}

/-- A store before the first call. -/
def ofStore (store : σ) : FailingStore σ := ⟨store, 0, []⟩

/-- Answer a call, or fail with a text and without effect. The calls that fail are given by their numbers. -/
def serve (answer : (request : StoreCall) → σ → request.Result × σ) (failure? : Nat → Option String)
    (request : StoreCall) (state : FailingStore σ) : request.Result × FailingStore σ :=
  match failure? state.calls with
  | some text => (.error (.unavailable text), ⟨state.store, state.calls + 1, request :: state.failed⟩)
  | none =>
    let answered := answer request state.store
    (answered.1, ⟨answered.2, state.calls + 1, state.failed⟩)

variable {answer : (request : StoreCall) → σ → request.Result × σ} {failure? : Nat → Option String}
  {request : StoreCall} {state : FailingStore σ}

/-- A call that fails is recorded. -/
theorem serve_of_some {text : String} (h : failure? state.calls = some text) :
    serve answer failure? request state =
      (.error (.unavailable text), ⟨state.store, state.calls + 1, request :: state.failed⟩) := by
  rw [serve, h]

/-- A call that does not fail is answered. -/
theorem serve_of_none (h : failure? state.calls = none) :
    serve answer failure? request state =
      ((answer request state.store).1, ⟨(answer request state.store).2, state.calls + 1, state.failed⟩) := by
  rw [serve, h]

end FailingStore

namespace StoreProgram

variable {α β σ : Type} {looksUp : Bool}

/-- Answer calls as a store that has no device type to find. -/
def findNone (answer : (request : StoreCall) → σ → request.Result × σ) :
    (request : StoreCall) → σ → request.Result × σ
  | .findDeviceType _, store => (.ok none, store)
  | request, store => answer request store

/-- Only the look-up of a device type finds anything else then. -/
theorem findNone_eq (answer : (request : StoreCall) → σ → request.Result × σ) {request : StoreCall}
    (h : ∀ reference, request ≠ .findDeviceType reference) : findNone answer request = answer request := by
  cases request with
  | findDeviceType reference => exact absurd rfl (h reference)
  | insertRule | findRule | listRules | setRuleActive | setRuleActiveIf | insertDeviceType | listDeviceTypes => rfl

/-- A program that ends as unavailable when a call fails. Once at most, and only if `looksUp` says so, it looks up a
device type, where it takes a failure for an answer without a type. -/
inductive PassesOnFailures : Bool → StoreProgram (Except PricingError α) → Prop
  | done {looksUp : Bool} (result : Except PricingError α) : PassesOnFailures looksUp (.done result)
  | call {looksUp : Bool} {request : StoreCall} {next : request.Result → StoreProgram (Except PricingError α)}
    (hrequest : ∀ reference, request ≠ .findDeviceType reference)
    (hfails : ∀ text, next (.error (.unavailable text)) = .done (.error (.storeUnavailable text)))
    (hnext : ∀ result, PassesOnFailures looksUp (next result)) : PassesOnFailures looksUp (.call request next)
  | lookUp {reference : String}
    {next : (StoreCall.findDeviceType reference).Result → StoreProgram (Except PricingError α)}
    (hfails : ∀ error, next (.error error) = next (.ok none))
    (hnext : ∀ result, PassesOnFailures false (next result)) :
    PassesOnFailures true (.call (.findDeviceType reference) next)

/-- Where no type is looked up it does not matter which types there are. -/
theorem PassesOnFailures.run_findNone {program : StoreProgram (Except PricingError α)}
    (h : program.PassesOnFailures looksUp) (hnone : looksUp = false)
    (answer : (request : StoreCall) → σ → request.Result × σ) (store : σ) :
    program.run (findNone answer) store = program.run answer store := by
  induction h generalizing store with
  | done result => rfl
  | call hrequest hfails hnext ih =>
    rw [run, run, findNone_eq answer hrequest]
    exact ih _ hnone _
  | lookUp => cases hnone

/-- What a program that passes on failures comes to, on a store with failures. -/
theorem PassesOnFailures.run_cases {program : StoreProgram (Except PricingError α)}
    (h : program.PassesOnFailures looksUp) (answer : (request : StoreCall) → σ → request.Result × σ)
    (failure? : Nat → Option String) (state : FailingStore σ) :
    let outcome := program.run (FailingStore.serve answer failure?) state
    (∃ text, outcome.1 = .error (.storeUnavailable text)) ∨
    (outcome.2.failed = state.failed ∧ (outcome.1, outcome.2.store) = program.run answer state.store) ∨
    (looksUp = true ∧ (∃ reference, outcome.2.failed = .findDeviceType reference :: state.failed) ∧
      (outcome.1, outcome.2.store) = program.run (findNone answer) state.store) := by
  induction h generalizing state with
  | done result => exact .inr (.inl ⟨rfl, rfl⟩)
  | @call looksUp request next hrequest hfails hnext ih =>
    simp only [run]
    cases hfailure : failure? state.calls with
    | some text =>
      rw [FailingStore.serve_of_some hfailure, hfails]
      exact .inl ⟨text, rfl⟩
    | none =>
      rw [FailingStore.serve_of_none hfailure, findNone_eq answer hrequest]
      exact ih _ _
  | @lookUp reference next hfails hnext ih =>
    simp only [run]
    cases hfailure : failure? state.calls with
    | some text =>
      rw [FailingStore.serve_of_some hfailure, hfails]
      rcases ih (.ok none) ⟨state.store, state.calls + 1, .findDeviceType reference :: state.failed⟩ with
        hunavailable | ⟨hfailed, hrun⟩ | ⟨hnone, _⟩
      · exact .inl hunavailable
      · have hnone := (hnext (.ok none)).run_findNone rfl answer state.store
        exact .inr (.inr ⟨trivial, ⟨reference, hfailed⟩, hrun.trans hnone.symm⟩)
      · cases hnone
    | none =>
      rw [FailingStore.serve_of_none hfailure]
      rcases ih (answer (.findDeviceType reference) state.store).1
        ⟨(answer (.findDeviceType reference) state.store).2, state.calls + 1, state.failed⟩ with
        hunavailable | hrun | ⟨hnone, _⟩
      · exact .inl hunavailable
      · exact .inr (.inl hrun)
      · cases hnone

/-- A program that looks up nothing may be taken for one that does. -/
theorem PassesOnFailures.of_looksUp_le {program : StoreProgram (Except PricingError α)} {first : Bool}
    (h : program.PassesOnFailures first) (hle : first = true → looksUp = true) : program.PassesOnFailures looksUp := by
  induction h with
  | done result => exact .done result
  | call hrequest hfails hnext ih => exact .call hrequest hfails fun result => ih result hle
  | lookUp hfails hnext ih =>
    cases hle rfl
    exact .lookUp hfails hnext

/-- Of a program and what follows its result, only one may look up a type. -/
theorem PassesOnFailures.andThen {program : StoreProgram (Except PricingError β)} {next : β → CatalogProgram α}
    {first second : Bool} (h : program.PassesOnFailures first)
    (hnext : ∀ value, PassesOnFailures second (next value).run) (honce : (first && second) = false) :
    (program.andThen (ExceptT.bindCont next)).PassesOnFailures (first || second) := by
  induction h with
  | @done first result =>
    cases result with
    | ok value => exact (hnext value).of_looksUp_le fun hsecond => by rw [hsecond, Bool.or_true]
    | error error => exact .done _
  | call hrequest hfails hrest ih =>
    refine .call hrequest (fun text => ?_) fun result => ih result honce
    rw [hfails]
    rfl
  | lookUp hfails hrest ih =>
    obtain rfl : second = false := honce
    exact .lookUp (fun error => by rw [hfails]) fun result => ih result rfl

end StoreProgram

namespace Catalog

open StoreProgram CatalogProgram

variable {α β : Type} {first second : Bool}

/-- A catalog operation that passes on failures. -/
def PassesOn (looksUp : Bool) (program : CatalogProgram α) : Prop := PassesOnFailures looksUp program.run

/-- Of an operation and what follows its result, only one may look up a type. -/
private theorem passesOn_bind {program : CatalogProgram β} {next : β → CatalogProgram α} {looksUp : Bool}
    (h : PassesOn first program) (hnext : ∀ value, PassesOn second (next value))
    (hlooksUp : (first || second) = looksUp) (honce : (first && second) = false) :
    PassesOn looksUp (program >>= next) :=
  hlooksUp ▸ h.andThen hnext honce

private theorem passesOn_ofExcept (result : Except PricingError α) :
    PassesOn false (CatalogProgram.ofExcept result) := .done result

private theorem passesOn_demand {request : StoreCall} (hrequest : ∀ reference, request ≠ .findDeviceType reference) :
    PassesOn false (demand request) :=
  .call hrequest (fun _ => rfl) fun _ => .done _

private theorem passesOn_resolve (reference : String) : PassesOn true (ofProgram (resolve reference)) :=
  .lookUp (fun _ => rfl) fun _ => .done _

private theorem passesOn_rule (id : Int64) : PassesOn false (rule id) := by
  refine passesOn_bind (passesOn_demand (by simp)) (fun found => ?_) rfl rfl
  cases found with
  | some rule => exact .done _
  | none => exact .done _

private theorem passesOn_deactivate (rules : List Rule) : PassesOn false (deactivate rules) := by
  induction rules with
  | nil => exact .done _
  | cons rule rules ih => exact passesOn_bind (passesOn_demand (by simp)) (fun _ => ih) rfl rfl

private theorem passesOn_settle (aliases : AliasSet) (kind : String) : PassesOn false (settle aliases kind) :=
  passesOn_bind (passesOn_demand (by simp)) (fun _ => passesOn_deactivate _) rfl rfl

private theorem passesOn_settleSiblings (rule : Rule) : PassesOn true (settleSiblings rule) :=
  passesOn_bind (passesOn_resolve _) (fun _ => passesOn_settle _ _) rfl rfl

/-- Creating a rule passes on failures, but for the look-up that settling begins with. -/
theorem passesOn_createRule (id createdAt : Int64) (draft : RuleDraft) :
    PassesOn true (createRule id createdAt draft) := by
  refine passesOn_bind (passesOn_ofExcept _) (fun new => ?_) rfl rfl
  refine passesOn_bind (passesOn_demand (by simp)) (fun created => ?_) rfl rfl
  by_cases hactive : created.isActive = true
  · rw [if_pos hactive]
    exact passesOn_bind (passesOn_settleSiblings created) (fun _ => passesOn_ofExcept (.ok created)) rfl rfl
  · rw [if_neg hactive]
    exact .done _

/-- Activating a rule passes on failures, but for the look-up that settling begins with. -/
theorem passesOn_activateRule (id : Int64) : PassesOn true (activateRule id) := by
  refine passesOn_bind (passesOn_rule id) (fun target => ?_) rfl rfl
  refine passesOn_bind (passesOn_demand (by simp)) (fun _ => ?_) rfl rfl
  exact passesOn_bind (passesOn_settleSiblings target) (fun _ => passesOn_rule id) rfl rfl

/-- Asking for the rule in effect passes on failures, but for the look-up of the reference. -/
theorem passesOn_ruleInEffect (typeAlias kind : String) : PassesOn true (ruleInEffect typeAlias kind) := by
  refine passesOn_bind (passesOn_resolve typeAlias) (fun aliases => ?_) rfl rfl
  have hlisted : PassesOn false (ruleInEffect? aliases kind) :=
    passesOn_bind (passesOn_demand (by simp)) (fun listed => passesOn_ofExcept (.ok _)) rfl rfl
  refine passesOn_bind hlisted (fun found => ?_) rfl rfl
  cases found with
  | some rule => exact .done _
  | none => exact .done _

/-- A quote passes on failures, but for the look-up of the reference. -/
theorem passesOn_quote (defaultKind : String) (request : QuoteRequest) :
    PassesOn true (quote defaultKind request) := by
  have hrule : PassesOn true (referencedRule defaultKind request.rule) := by
    cases request.rule with
    | pinned id => exact (passesOn_rule id).of_looksUp_le fun _ => rfl
    | inEffect lookup =>
      simp only [referencedRule]
      split
      · exact .done _
      · exact passesOn_ruleInEffect _ _
  exact passesOn_bind hrule (fun rule => passesOn_ofExcept (Quote.ofRule rule request.answers)) rfl rfl

/-- Whichever calls of the operation fail, on whatever store: it ends as unavailable; or no call has failed; or one has,
the look-up of a device type, and the result and the store after it are those of the operation without failures where no
type is found. -/
def TellsFailures (program : CatalogProgram α) : Prop :=
  ∀ {σ : Type} (answer : (request : StoreCall) → σ → request.Result × σ) (failure? : Nat → Option String) (store : σ),
    let outcome := program.run.run (FailingStore.serve answer failure?) (.ofStore store)
    (∃ text, outcome.1 = .error (.storeUnavailable text)) ∨
    (outcome.2.failed = [] ∧ (outcome.1, outcome.2.store) = program.run.run answer store) ∨
    ((∃ reference, outcome.2.failed = [.findDeviceType reference]) ∧
      (outcome.1, outcome.2.store) = program.run.run (findNone answer) store)

/-- An operation that passes on failures tells them. -/
theorem PassesOn.tellsFailures {program : CatalogProgram α} (h : PassesOn true program) : TellsFailures program := by
  intro σ answer failure? store
  rcases h.run_cases answer failure? (.ofStore store) with hunavailable | hnone | ⟨-, hlookUp⟩
  · exact .inl hunavailable
  · exact .inr (.inl hnone)
  · exact .inr (.inr hlookUp)

/-- Quotes, questions for the rule in effect, creations and activations tell the failures of their calls, except that a
failed look-up of a device type finds none. -/
theorem operation_tellsFailures :
    (∀ defaultKind request, TellsFailures (quote defaultKind request)) ∧
      (∀ typeAlias kind, TellsFailures (ruleInEffect typeAlias kind)) ∧
      (∀ id createdAt draft, TellsFailures (createRule id createdAt draft)) ∧
      ∀ id, TellsFailures (activateRule id) :=
  ⟨fun _ _ => (passesOn_quote _ _).tellsFailures, fun _ _ => (passesOn_ruleInEffect _ _).tellsFailures,
    fun _ _ _ => (passesOn_createRule _ _ _).tellsFailures, fun _ => (passesOn_activateRule _).tellsFailures⟩

/-- A rule without amounts for examples. -/
private def plainRule (id : Int64) (typeAlias : String) (isActive : Bool) (basePrice : Int64) (revision : UInt64) :
    Rule where
  id
  typeAlias
  kind := Rule.pricingKind
  version := 1
  isActive
  body := .object [("basePrice", .ofInt64 basePrice)]
  createdAt := id
  revision

/-- A type with an active rule under its code and an inactive one under its id. -/
private def phoneStore : MemoryStore where
  rules := [(2, plainRule 2 "t1" false 200 2), (1, plainRule 1 "PHONE" true 100 1)]
  deviceTypes := [⟨"t1", some "PHONE", "Phone"⟩]
  revision := 2

/-- What an operation comes to if one of its calls fails, given by its number. -/
private def failingOnce (program : CatalogProgram α) (call : Nat) : Except PricingError α × MemoryStore :=
  let outcome := program.run.run (FailingStore.serve MemoryStore.serve fun calls =>
    if calls = call then some "down" else none) (.ofStore phoneStore)
  (outcome.1, outcome.2.store)

/-- When the look-up of a device type fails, no rule is found where there is one, a quote is priced with another rule,
and an activation succeeds and leaves a sibling active. -/
theorem failed_lookUp_unnoticed :
    (((ruleInEffect "Phone" Rule.pricingKind).alone phoneStore).1 = .ok (plainRule 1 "PHONE" true 100 1) ∧
      (failingOnce (ruleInEffect "Phone" Rule.pricingKind) 0).1 = .error (.noRule "Phone" Rule.pricingKind)) ∧
    (((quote Rule.pricingKind ⟨[], .inEffect ⟨"t1", none⟩⟩).alone phoneStore).1.toOption.map Quote.prelimPrice =
        some 100 ∧
      (failingOnce (quote Rule.pricingKind ⟨[], .inEffect ⟨"t1", none⟩⟩) 0).1.toOption.map Quote.prelimPrice =
        some 200) ∧
    (((activateRule 2).alone phoneStore).2.rule? 1).map Rule.isActive = some false ∧
      (failingOnce (activateRule 2) 2).1 = .ok (plainRule 2 "t1" true 200 3) ∧
      ((failingOnce (activateRule 2) 2).2.rule? 1).map Rule.isActive = some true := by
  refine ⟨⟨rfl, rfl⟩, ⟨?_, ?_⟩, ?_, rfl, ?_⟩ <;> decide +kernel

end Catalog

end TradeIn
