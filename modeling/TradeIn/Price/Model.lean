import TradeIn.Condition.Basic
import TradeIn.Json.Record

/-!
# Price models

A price model says how a price is computed, whatever the shape of the rule it came from: a base price, a least
price, adjustments that count when their condition holds, and amounts per unit of a numeric answer. It travels
with every price as the record of how it was computed.
-/

namespace TradeIn

/-- A change of the price under a condition. -/
structure Adjustment where
  condition : Condition
  /-- The amount that is added when the condition holds. -/
  delta : Binary64
  deriving DecidableEq, Repr

namespace Adjustment

/-- Read an adjustment. -/
def reader : Reader Adjustment :=
  (Adjustment.mk <$> .required "if" Condition.reader <*> .required "then" .binary64 :
    RecordReader Adjustment).read

/-- Write an adjustment. -/
def toJson (adjustment : Adjustment) : Json :=
  .object [("if", adjustment.condition.toJson), ("then", .ofBinary64 adjustment.delta)]

end Adjustment

/-- How a price is computed. -/
structure PriceModel where
  basePrice : Binary64
  /-- The price is never below this amount. -/
  minPrice : Binary64
  adjustments : List Adjustment
  /-- The amount per unit of the answer to a question. -/
  perUnit : Members Binary64
  deriving DecidableEq, Repr

namespace PriceModel

/-- Read a price model. -/
def reader : Reader PriceModel :=
  (PriceModel.mk <$> .required "basePrice" .binary64
    <*> .defaulted "minPrice" (.finite .zero) .binary64
    <*> .defaulted "adjustments" [] (.list Adjustment.reader)
    <*> .defaulted "perUnit" [] (.members .binary64) : RecordReader PriceModel).read

/-- Write a price model. -/
def toJson (model : PriceModel) : Json :=
  .object
    [("adjustments", .array (model.adjustments.map Adjustment.toJson)),
      ("basePrice", .ofBinary64 model.basePrice),
      ("minPrice", .ofBinary64 model.minPrice),
      ("perUnit", .object (model.perUnit.map fun member => (member.1, .ofBinary64 member.2)))]

end PriceModel

end TradeIn
