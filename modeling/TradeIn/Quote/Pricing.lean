import TradeIn.Catalog.Rules
import TradeIn.Price.Body
import TradeIn.Price.Calculation
import TradeIn.Quote.Basic

/-!
# Pricing quotes

A quote is priced with one rule, whose base price must be there and whose bounds must fit the whole units of a
price. The same bounds hold for a price that is computed again from its record.
-/

namespace TradeIn

namespace Finite64

/-- Whether a bound of a price has a decimal and fits the whole units of a price. -/
def isRepresentable (x : Finite64) : Bool := x.belowTwoPow63 && (Decimal.ofFinite64? x).isSome

end Finite64

namespace Binary64

/-- Whether a bound of a price is finite, has a decimal and fits the whole units of a price. -/
def isRepresentable (x : Binary64) : Bool := x.finite?.any Finite64.isRepresentable

end Binary64

namespace Quote

/-- The quote that a price model gives for answers. -/
def ofModel (model : PriceModel) (version : Int64) (answers : Answers) : Quote :=
  ⟨model.price answers, version, model, none⟩

/-- The quote that a rule gives for answers. -/
def ofRule (rule : Rule) (answers : Answers) : Except PricingError Quote :=
  let body := RuleBody.ofJson rule.body
  match body.basePrice? with
  | none => .error (.invalidRule rule.id "basePrice is missing or not a finite number")
  | some basePrice =>
    if !basePrice.isRepresentable || !body.minPrice.isRepresentable then
      .error (.invalidRule rule.id "basePrice or minPrice is out of range")
    else .ok { ofModel body.model rule.version answers with ruleId := some rule.id }

end Quote

namespace RecomputeRequest

/-- The quote that the record of a price gives. -/
def quote (request : RecomputeRequest) : Except PricingError Quote :=
  if !request.ruleSnapshot.basePrice.isRepresentable then
    .error (.validation "ruleSnapshot.basePrice must be a finite number within range")
  else if !request.ruleSnapshot.minPrice.isRepresentable then
    .error (.validation "ruleSnapshot.minPrice must be a finite number within range")
  else .ok (.ofModel request.ruleSnapshot request.ruleVersion request.answers)

end RecomputeRequest

namespace Catalog

/-- The rule that a reference means. -/
def referencedRule (defaultKind : String) : RuleReference → CatalogProgram Rule
  | .pinned id => rule id
  | .inEffect lookup =>
    if Text.isAllBlank lookup.typeAlias then
      CatalogProgram.fail (.validation "rule.typeAlias must not be blank")
    else ruleInEffect lookup.typeAlias (lookup.kind.getD defaultKind)

/-- The quote of the rule with an id. -/
def priceRule (id : Int64) (answers : Answers) : CatalogProgram Quote := do
  let rule ← rule id
  CatalogProgram.ofExcept (Quote.ofRule rule answers)

/-- The quote for a request. -/
def quote (defaultKind : String) (request : QuoteRequest) : CatalogProgram Quote := do
  let rule ← referencedRule defaultKind request.rule
  CatalogProgram.ofExcept (Quote.ofRule rule request.answers)

end Catalog

end TradeIn
