import TradeIn.Catalog.DeviceTypes
import TradeIn.Proofs.Catalog.Settling

/-!
# Operations alone

An operation that runs alone has its calls answered one after the other, with none in between.
-/

namespace TradeIn

namespace StoreProgram

/-- What every call keeps, a program keeps. -/
theorem run_keeps {α σ : Type} {serve : (request : StoreCall) → σ → request.Result × σ} (kept : σ → Prop)
    (hserve : ∀ request store, kept store → kept (serve request store).2) (program : StoreProgram α) {store : σ}
    (h : kept store) : kept (program.run serve store).2 := by
  induction program generalizing store with
  | done result => exact h
  | call request next ih => exact ih _ (hserve request store h)

end StoreProgram

namespace CatalogProgram

variable {α β : Type}

section Run

variable {σ : Type} {serve : (request : StoreCall) → σ → request.Result × σ} {program : CatalogProgram β}
  {next : β → CatalogProgram α} {store after : σ}

/-- An operation goes on with a result, whatever answers its calls. -/
theorem run_bind_of_ok {value : β} (h : StoreProgram.run serve program.run store = (.ok value, after)) :
    StoreProgram.run serve (program >>= next).run store = StoreProgram.run serve (next value).run after := by
  have hrun : (program >>= next).run = program.run.andThen fun result => ExceptT.bindCont next result := rfl
  rw [hrun, StoreProgram.run_andThen, h]
  rfl

/-- An operation ends with an error, whatever answers its calls. -/
theorem run_bind_of_error {error : PricingError}
    (h : StoreProgram.run serve program.run store = (.error error, after)) :
    StoreProgram.run serve (program >>= next).run store = (.error error, after) := by
  have hrun : (program >>= next).run = program.run.andThen fun result => ExceptT.bindCont next result := rfl
  rw [hrun, StoreProgram.run_andThen, h]
  rfl

end Run

/-- The result of an operation that runs alone, and the store after it. -/
def alone (program : CatalogProgram α) (store : MemoryStore) : Except PricingError α × MemoryStore :=
  StoreProgram.run MemoryStore.serve program.run store

/-- An operation goes on with a result. -/
theorem alone_bind_of_ok {program : CatalogProgram β} {next : β → CatalogProgram α} {store after : MemoryStore}
    {value : β} (h : program.alone store = (.ok value, after)) :
    (program >>= next).alone store = (next value).alone after := run_bind_of_ok h

/-- An operation ends with an error. -/
theorem alone_bind_of_error {program : CatalogProgram β} {next : β → CatalogProgram α} {store after : MemoryStore}
    {error : PricingError} (h : program.alone store = (.error error, after)) :
    (program >>= next).alone store = (.error error, after) := run_bind_of_error h

/-- A single call gives its result. -/
theorem alone_demand (request : StoreCall) (store : MemoryStore) :
    (demand request).alone store = ((store.serve request).1.mapError .ofStore, (store.serve request).2) := rfl

end CatalogProgram

namespace Catalog

variable {store : MemoryStore}

/-- The result of an operation that runs alone, and the store after it. -/
def Operation.alone (operation : Operation) (store : MemoryStore) : Except PricingError Rule × MemoryStore :=
  StoreProgram.run MemoryStore.serve operation.program store

/-- The rule in effect for a reference is the one for the names that it stands for. -/
theorem alone_ruleInEffect (typeAlias kind : String) (store : MemoryStore) :
    (ruleInEffect typeAlias kind).alone store =
      (match Rule.inEffect? (store.listRules
          (.ofAliases (DeviceType.aliasClass store.deviceTypes typeAlias) kind)) with
        | some rule => .ok rule
        | none => .error (.noRule typeAlias kind), store) := by
  unfold ruleInEffect
  generalize haliases : DeviceType.aliasClass store.deviceTypes typeAlias = aliases
  have hresolved : (CatalogProgram.ofProgram (resolve typeAlias)).alone store = (.ok aliases, store) := by
    rw [← haliases]
    rfl
  have hfound : (ruleInEffect? aliases kind).alone store =
      (.ok (Rule.inEffect? (store.listRules (.ofAliases aliases kind))), store) := rfl
  rw [CatalogProgram.alone_bind_of_ok hresolved, CatalogProgram.alone_bind_of_ok hfound]
  cases Rule.inEffect? (store.listRules (.ofAliases aliases kind)) <;> rfl

end Catalog

end TradeIn
