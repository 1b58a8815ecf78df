import TradeIn.Condition.Evaluation
import TradeIn.Price.Model

/-!
# Quotes

A quote is a preliminary price with the record of how it was computed. It is requested with the answers to the
questionnaire and a reference to a rule: one pinned rule, or the rule in effect for a device type and a kind. The
record alone is enough to compute the price again.
-/

namespace TradeIn

/-- The rule in effect for a device type. -/
structure ActiveLookup where
  typeAlias : String
  /-- The configured kind if it is left out. -/
  kind : Option String
  deriving DecidableEq, Repr

namespace ActiveLookup

/-- Read a lookup. -/
def reader : Reader ActiveLookup :=
  (ActiveLookup.mk <$> .required "typeAlias" .string <*> .optional "kind" .string :
    RecordReader ActiveLookup).read

/-- Write a lookup. -/
def toJson (lookup : ActiveLookup) : Json :=
  .object [("kind", (lookup.kind.map Json.string).getD .null), ("typeAlias", .string lookup.typeAlias)]

end ActiveLookup

/-- The rule that a quote is priced with. -/
inductive RuleReference where
  /-- The rule with this id, whether it is active or not. -/
  | pinned (id : Int64)
  /-- The rule in effect. -/
  | inEffect (lookup : ActiveLookup)
  deriving DecidableEq, Repr

namespace RuleReference

/-- Read a pinned rule. -/
def pinnedReader : Reader RuleReference :=
  (RuleReference.pinned <$> .required "id" .int64 : RecordReader RuleReference).read

/-- Read a reference: a pinned rule where that fits, and otherwise the rule in effect. -/
def reader : Reader RuleReference :=
  .orElse pinnedReader fun parsed => (ActiveLookup.reader parsed).map RuleReference.inEffect

/-- Write a reference. -/
def toJson : RuleReference → Json
  | pinned id => .object [("id", .ofInt64 id)]
  | inEffect lookup => lookup.toJson

end RuleReference

/-- A request for a price. -/
structure QuoteRequest where
  answers : Answers
  rule : RuleReference
  deriving DecidableEq, Repr

namespace QuoteRequest

/-- Read a request. -/
def reader : Reader QuoteRequest :=
  (QuoteRequest.mk <$> .defaulted "answers" [] Answers.reader <*> .required "rule" RuleReference.reader :
    RecordReader QuoteRequest).read

/-- Write a request. -/
def toJson (request : QuoteRequest) : Json :=
  .object [("answers", request.answers.toJson), ("rule", request.rule.toJson)]

end QuoteRequest

/-- A request to compute a price again from its record. -/
structure RecomputeRequest where
  answers : Answers
  ruleVersion : Int64
  ruleSnapshot : PriceModel
  deriving DecidableEq, Repr

namespace RecomputeRequest

/-- Read a request. -/
def reader : Reader RecomputeRequest :=
  (RecomputeRequest.mk <$> .defaulted "answers" [] Answers.reader
    <*> .required "ruleVersion" .int64
    <*> .required "ruleSnapshot" PriceModel.reader : RecordReader RecomputeRequest).read

/-- Write a request. -/
def toJson (request : RecomputeRequest) : Json :=
  .object
    [("answers", request.answers.toJson),
      ("ruleSnapshot", request.ruleSnapshot.toJson),
      ("ruleVersion", .ofInt64 request.ruleVersion)]

end RecomputeRequest

/-- A preliminary price with the record of how it was computed. -/
structure Quote where
  /-- The price in whole units, not below zero. -/
  prelimPrice : Int64
  ruleVersion : Int64
  ruleSnapshot : PriceModel
  /-- The rule that the price was computed from, if it was one. -/
  ruleId : Option Int64
  deriving DecidableEq, Repr

namespace Quote

/-- Read a quote. -/
def reader : Reader Quote :=
  (Quote.mk <$> .required "prelimPrice" .int64
    <*> .required "ruleVersion" .int64
    <*> .required "ruleSnapshot" PriceModel.reader
    <*> .optional "ruleId" .int64 : RecordReader Quote).read

/-- Write a quote, without a rule id if it has none. -/
def toJson (quote : Quote) : Json :=
  let ruleId := (quote.ruleId.map fun id => ("ruleId", Json.ofInt64 id)).toList
  .object
    ([("prelimPrice", .ofInt64 quote.prelimPrice)] ++ ruleId ++
      [("ruleSnapshot", quote.ruleSnapshot.toJson), ("ruleVersion", .ofInt64 quote.ruleVersion)])

end Quote

end TradeIn
