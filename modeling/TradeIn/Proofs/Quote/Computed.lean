import TradeIn.Quote.Pricing

/-!
# Computed quotes

A quote is computed from a rule or from the record of a price. Either way it holds the price of its model, and it is
refused exactly when there is no base price or a bound does not fit the whole units of a price.
-/

namespace TradeIn

/-- A rule gives a quote exactly when it has a base price and its bounds fit; the quote is that of its model. -/
theorem Quote.ofRule_eq_ok_iff {rule : Rule} {answers : Answers} {quote : Quote} :
    Quote.ofRule rule answers = .ok quote ↔
      (RuleBody.ofJson rule.body).basePrice?.isSome = true ∧
        (RuleBody.ofJson rule.body).model.basePrice.isRepresentable = true ∧
        (RuleBody.ofJson rule.body).model.minPrice.isRepresentable = true ∧
        quote = { Quote.ofModel (RuleBody.ofJson rule.body).model rule.version answers with ruleId := some rule.id } := by
  rw [Quote.ofRule]
  cases hbase : (RuleBody.ofJson rule.body).basePrice? with
  | none => simp
  | some base =>
    have hmodel : (RuleBody.ofJson rule.body).model.basePrice = .finite base := by simp [RuleBody.model, hbase]
    rw [hmodel]
    simp only [Option.isSome_some, true_and]
    change (if (!base.isRepresentable || !(RuleBody.ofJson rule.body).minPrice.isRepresentable) = true then _ else _) = _ ↔
      base.isRepresentable = true ∧ (RuleBody.ofJson rule.body).minPrice.isRepresentable = true ∧ _
    cases base.isRepresentable <;> cases (RuleBody.ofJson rule.body).minPrice.isRepresentable <;> simp [eq_comm]

/-- The record of a price gives a quote exactly when its bounds fit; the quote is that of its model. -/
theorem RecomputeRequest.quote_eq_ok_iff {request : RecomputeRequest} {quote : Quote} :
    request.quote = .ok quote ↔
      request.ruleSnapshot.basePrice.isRepresentable = true ∧ request.ruleSnapshot.minPrice.isRepresentable = true ∧
        quote = .ofModel request.ruleSnapshot request.ruleVersion request.answers := by
  rw [RecomputeRequest.quote]
  cases request.ruleSnapshot.basePrice.isRepresentable <;> cases request.ruleSnapshot.minPrice.isRepresentable <;>
    simp [eq_comm]

namespace Quote

variable {answers : Answers} {quote : Quote}

/-- The quote is what a rule, or the record of a price, gives for the answers. -/
inductive IsComputed : Answers → Quote → Prop
  | ofRule {rule : Rule} {answers : Answers} {quote : Quote} (hquote : Quote.ofRule rule answers = .ok quote) :
    IsComputed answers quote
  | ofRecord {request : RecomputeRequest} {quote : Quote} (hquote : request.quote = .ok quote) :
    IsComputed request.answers quote

/-- A computed quote holds the price of its model, whose least price fits the whole units of a price. -/
theorem IsComputed.eq_price (h : quote.IsComputed answers) :
    quote.prelimPrice = quote.ruleSnapshot.price answers ∧
      quote.ruleSnapshot.minPrice.isRepresentable = true := by
  cases h with
  | ofRule hquote =>
    obtain ⟨_, _, hminPrice, rfl⟩ := ofRule_eq_ok_iff.1 hquote
    exact ⟨rfl, hminPrice⟩
  | ofRecord hquote =>
    obtain ⟨_, hminPrice, rfl⟩ := RecomputeRequest.quote_eq_ok_iff.1 hquote
    exact ⟨rfl, hminPrice⟩

end Quote

end TradeIn
