import TradeIn.Proofs.Price.Record
import TradeIn.Proofs.Quote.Computed

/-!
# Computing a quote again

A quote carries the record of its price, and the same price is computed from the record as long as the record is the
same value. Text does not keep that: the numbers of a record are written with the fewest digits, but read with rounding
on the way, and a neighbour may come back. The price is then computed from other numbers, or refused.
-/

namespace TradeIn

namespace Quote

variable {rule : Rule} {answers : Answers} {quote : Quote}

/-- Computing again from a record is not refused, and gives a quote with the price, the version and the record of this
one. -/
def Reproduces (quote : Quote) (answers : Answers) (record : Json) : Prop :=
  ∃ model again, PriceModel.reader.ofJson? record = some model ∧
    RecomputeRequest.quote ⟨answers, quote.ruleVersion, model⟩ = .ok again ∧
    again.prelimPrice = quote.prelimPrice ∧ again.ruleVersion = quote.ruleVersion ∧
    again.ruleSnapshot.toJson = quote.ruleSnapshot.toJson

/-- The quote of a rule is reproduced from its own record. -/
theorem reproduces_ruleSnapshot (hbody : rule.body.WellFormed) (hquote : Quote.ofRule rule answers = .ok quote) :
    quote.Reproduces answers quote.ruleSnapshot.toJson := by
  obtain ⟨_, hbasePrice, hminPrice, rfl⟩ := ofRule_eq_ok_iff.1 hquote
  have hmodel := RuleBody.isRecordable_model hbody
  refine ⟨_, _, hmodel.ofJson?_toJson, RecomputeRequest.quote_eq_ok_iff.2 ⟨hbasePrice, hminPrice, rfl⟩, ?_, rfl, ?_⟩
  · exact PriceModel.price_recovered RuleBody.isFaithful_of_mem_model answers
  · exact PriceModel.toJson_recovered _

/-- A quote is reproduced from no other record that a model has. -/
theorem toJson_eq_of_reproduces {model : PriceModel} (hmodel : model.IsRecordable)
    (h : quote.Reproduces answers model.toJson) : model.toJson = quote.ruleSnapshot.toJson := by
  obtain ⟨decoded, again, hdecoded, hagain, _, _, hsnapshot⟩ := h
  obtain rfl : model.recovered = decoded := Option.some.inj (hmodel.ofJson?_toJson.symm.trans hdecoded)
  obtain ⟨_, _, rfl⟩ := RecomputeRequest.quote_eq_ok_iff.1 hagain
  rw [← hsnapshot]
  exact (PriceModel.toJson_recovered model).symm

/-- Through text the quote of a rule is reproduced exactly when its record comes back as the same value. -/
theorem exists_reproduces_reread_iff (hbody : rule.body.WellFormed) (hquote : Quote.ofRule rule answers = .ok quote) :
    (∃ read, quote.ruleSnapshot.toJson.reread? = some read ∧ quote.Reproduces answers read) ↔
      quote.ruleSnapshot.toJson.reread? = some quote.ruleSnapshot.toJson := by
  constructor
  · rintro ⟨read, hread, hreproduces⟩
    have hmodel : quote.ruleSnapshot.IsRecordable := by
      obtain ⟨_, _, _, rfl⟩ := ofRule_eq_ok_iff.1 hquote
      exact RuleBody.isRecordable_model hbody
    obtain ⟨other, hother, rfl⟩ := hmodel.recoded_toJson (Json.reread?_eq_some_iff.1 hread).2
    rw [hread, toJson_eq_of_reproduces hother hreproduces]
  · intro hsame
    exact ⟨_, hsame, reproduces_ruleSnapshot hbody hquote⟩

/-- The quote of a rule is reproduced from its record. Through text it is reproduced exactly when the record comes back
as the same value. -/
theorem recompute_reproduces (hbody : rule.body.WellFormed) (hquote : Quote.ofRule rule answers = .ok quote) :
    quote.Reproduces answers quote.ruleSnapshot.toJson ∧
      ((∃ read, quote.ruleSnapshot.toJson.reread? = some read ∧ quote.Reproduces answers read) ↔
        quote.ruleSnapshot.toJson.reread? = some quote.ruleSnapshot.toJson) :=
  ⟨reproduces_ruleSnapshot hbody hquote, exists_reproduces_reread_iff hbody hquote⟩

/-- A rule for examples, with its body. -/
private def ruleOf (body : Json) : Rule := ⟨1, "PHONE", Rule.pricingKind, 1, true, body, 0, 1⟩

/-- A body with an adjustment whose condition is missing. -/
private def unconditionalBody : Json :=
  .object
    [("adjustments", .array [.object [("then", .number (.integer 5 (by decide)))]]),
      ("basePrice", .number (.integer 500 (by decide)))]

/-- The quote of a rule with a missing condition is reproduced. -/
theorem recompute_reproduces_unconditional : ∃ quote,
    unconditionalBody.WellFormed ∧ Quote.ofRule (ruleOf unconditionalBody) [] = .ok quote ∧
      quote.Reproduces [] quote.ruleSnapshot.toJson := by
  have hkeys : ["adjustments", "basePrice"].Pairwise (· < ·) := by decide
  have hbody : unconditionalBody.WellFormed := by
    simp only [unconditionalBody, Json.WellFormed, Json.ItemsWellFormed, Json.MembersWellFormed]
    exact ⟨hkeys, ⟨⟨List.pairwise_singleton _ _, trivial, trivial⟩, trivial⟩, trivial, trivial⟩
  have hquote : Quote.ofRule (ruleOf unconditionalBody) [] = .ok _ := rfl
  exact ⟨_, hbody, hquote, (recompute_reproduces hbody hquote).1⟩

/-- A body whose base price is the greatest binary64 number below `2 ^ 63`. -/
private def greatestBody : Json := .object [("basePrice", .number (.integer (2 ^ 63 - 1024) (by decide)))]

/-- The greatest binary64 number below `2 ^ 63`. -/
private def greatestBase : Finite64 := ⟨false, ⟨1086 * 2 ^ 52 - 1, by decide⟩⟩

/-- The binary64 number `2 ^ 63`. -/
private def twoPow63 : Finite64 := ⟨false, ⟨1086 * 2 ^ 52, by decide⟩⟩

/-- A model with a base price and nothing else. -/
private def baseModel (basePrice : Finite64) : PriceModel := ⟨.finite basePrice, .finite .zero, [], []⟩

private theorem isRecordable_baseModel (basePrice : Finite64) : (baseModel basePrice).IsRecordable :=
  ⟨⟨_, rfl⟩, ⟨_, rfl⟩, by simp [baseModel], by simp [baseModel], .nil⟩

/-- The record of a base price just below `2 ^ 63` comes back from text with `2 ^ 63`, which is refused. -/
theorem recompute_refuses_reread : ∃ quote read model,
    greatestBody.WellFormed ∧ Quote.ofRule (ruleOf greatestBody) [] = .ok quote ∧
      quote.ruleSnapshot.toJson.reread? = some read ∧ PriceModel.reader.ofJson? read = some model ∧
      RecomputeRequest.quote ⟨[], quote.ruleVersion, model⟩ =
        .error (.validation "ruleSnapshot.basePrice must be a finite number within range") := by
  have hbody : greatestBody.WellFormed := by
    simp only [greatestBody, Json.WellFormed, Json.MembersWellFormed]
    exact ⟨List.pairwise_singleton _ _, trivial, trivial⟩
  have hmodel : (RuleBody.ofJson greatestBody).model = baseModel greatestBase := by decide +kernel
  have hquote : Quote.ofRule (ruleOf greatestBody) [] =
      .ok { Quote.ofModel (RuleBody.ofJson greatestBody).model 1 [] with ruleId := some 1 } := rfl
  have hbase : Number.reread? (.binary greatestBase) = some (.binary twoPow63) := by decide +kernel
  have hzero : Number.reread? (.binary .zero) = some (.binary .zero) := by decide +kernel
  have hread : (baseModel greatestBase).toJson.reread? = some (baseModel twoPow63).toJson := by
    refine Json.reread?_eq_some_iff.2 ⟨by decide, ?_⟩
    simp [baseModel, PriceModel.toJson, Json.ofBinary64, Json.recoded?, Json.recodedMembers?, Json.recodedItems?, hbase,
      hzero]
  rw [hmodel] at hquote
  exact ⟨_, _, _, hbody, hquote, hread, (isRecordable_baseModel twoPow63).ofJson?_toJson, rfl⟩

end Quote

end TradeIn
