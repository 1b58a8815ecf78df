import TradeIn.Proofs.Catalog.Alone
import TradeIn.Proofs.Rule.Greatest
import TradeIn.Proofs.Store.Reachable

/-!
# The rule in effect

Among the stored rules of a kind under some aliases, the active one with the greatest revision is in effect, and where
none is active the newest one is (`Rule.IsInEffect`). The walk over the listed rules would settle ties by their order,
but there are none: in every state that a working store can be in, revisions are distinct, and so are times and ids
taken together.
-/

namespace TradeIn

namespace Rule

variable {listed : List Rule} {a b rule winner : Rule}

/-- Where no listed rule is active, the first one is in effect. -/
theorem inEffect?_of_inactive (hinactive : ∀ other ∈ listed, other.isActive = false) :
    inEffect? listed = listed.head? := by
  have hnone : (listed.filter fun rule => rule.isActive) = [] :=
    List.filter_eq_nil_iff.2 fun other hother => by simp [hinactive other hother]
  rw [inEffect?, hnone]
  rfl

/-- The rule in effect is one of the listed ones. -/
theorem mem_of_inEffect? (h : inEffect? listed = some winner) : winner ∈ listed := by
  by_cases hsome : ∃ rule ∈ listed, rule.isActive = true
  · obtain ⟨rule, hrule, hactive⟩ := hsome
    exact (stamp_le_of_inEffect? hactive hrule h).1
  · rw [inEffect?_of_inactive fun other hother => Bool.eq_false_iff.2 fun hactive => hsome ⟨other, hother, hactive⟩] at h
    exact List.mem_of_mem_head? h

end Rule

namespace CatalogProgram

/-- The result of an operation that has a working backend to itself, and the backend after it. -/
def onBackend {α : Type} (program : CatalogProgram α) (backend : Backend) : Except PricingError α × Backend :=
  StoreProgram.run Backend.serve program.run backend

end CatalogProgram

/-- A rule of a kind is stored under one of some aliases. -/
def Backend.StoresUnder (backend : Backend) (aliases : AliasSet) (kind : String) (rule : Rule) : Prop :=
  backend.Stores rule ∧ rule.kind = kind ∧ aliases.contains rule.typeAlias = true

namespace Catalog

variable {backend : Backend} {view : MemoryStore} {aliases : AliasSet} {kind : String} {count : Nat}

/-- The rule in effect is picked from the listed rules of the store that is shown. -/
theorem onBackend_ruleInEffect? (h : backend.Shows view) (aliases : AliasSet) (kind : String) :
    (ruleInEffect? aliases kind).onBackend backend =
      (.ok (Rule.inEffect? (view.listRules (.ofAliases aliases kind))), backend) := by
  have hlisted : StoreProgram.run Backend.serve (CatalogProgram.demand (.listRules (.ofAliases aliases kind))).run
      backend = (.ok (view.listRules (.ofAliases aliases kind)), backend) := by
    change ((backend.serve (.listRules (.ofAliases aliases kind))).1.mapError PricingError.ofStore, _) = _
    rw [h.serve_listRules]
    rfl
  exact CatalogProgram.run_bind_of_ok hlisted

/-- Where some stored rule cannot be read, none is found to be in effect: looking for it fails, and changes nothing. -/
theorem exists_onBackend_ruleInEffect?_eq_error (h : backend.Filed) (hnot : ¬backend.Readable) (aliases : AliasSet)
    (kind : String) :
    ∃ column, (ruleInEffect? aliases kind).onBackend backend =
      (.error (.ofStore (.serialization (.tooDeep column))), backend) := by
  obtain ⟨column, hlisted⟩ := h.exists_serve_listRules_eq_error hnot (.ofAliases aliases kind)
  have hfailed : StoreProgram.run Backend.serve (CatalogProgram.demand (.listRules (.ofAliases aliases kind))).run
      backend = (.error (.ofStore (.serialization (.tooDeep column))), backend) := by
    change ((backend.serve (.listRules (.ofAliases aliases kind))).1.mapError PricingError.ofStore, _) = _
    rw [hlisted]
    rfl
  exact ⟨column, CatalogProgram.run_bind_of_error hfailed⟩

end Catalog

end TradeIn
