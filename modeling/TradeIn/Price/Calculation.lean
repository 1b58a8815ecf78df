import TradeIn.Condition.Evaluation
import TradeIn.Number.Decimal
import TradeIn.Number.Reading
import TradeIn.Price.Model
import TradeIn.Text.Blank

/-!
# Calculating a price

The price is the base price, plus the deltas of the adjustments whose condition holds, plus for each per-unit
amount the amount times the numeric answer; it is then raised to the least price, rounded to whole units with a
half away from zero, and raised to zero. The arithmetic is decimal. A term that would overflow is left out.
-/

namespace TradeIn

/-- The number that an answer stands for: a number, the number that a string writes, or one for `true`. Anything
else is zero. -/
def numericAnswer : Option Json → Decimal
  | some (.number n) =>
    match n.int64? with
    | some value => .ofInt64 value
    | none => (Decimal.ofFinite64? n.toFinite64).getD .zero
  | some (.string s) =>
    match Binary64.ofText? (Text.trim s) with
    | some value => .ofAmount value
    | none => .zero
  | some (.bool true) => .one
  | _ => .zero

namespace PriceModel

/-- The price with an amount added, unless that overflows. -/
def addAmount (price amount : Decimal) : Decimal := (price.add? amount).getD price

/-- The price after the adjustments whose condition holds. -/
def adjusted (model : PriceModel) (answers : Answers) : Decimal :=
  (model.adjustments.filter fun adjustment => adjustment.condition.holds answers).foldl
    (fun price adjustment => addAmount price (.ofAmount adjustment.delta)) (.ofAmount model.basePrice)

/-- The term of an amount per unit, unless it overflows. -/
def unitTerm? (answers : Answers) (field : String) (amount : Binary64) : Option Decimal :=
  (Decimal.ofAmount amount).mul? (numericAnswer (Members.get? answers field))

/-- The price after the adjustments and the amounts per unit. -/
def total (model : PriceModel) (answers : Answers) : Decimal :=
  (model.perUnit.filterMap fun member => unitTerm? answers member.1 member.2).foldl addAmount
    (model.adjusted answers)

/-- The price in whole units, neither below the least price nor below zero. -/
def price (model : PriceModel) (answers : Answers) : Int64 :=
  let units := ((model.total answers).max (.ofAmount model.minPrice)).toWholeUnits
  if units < 0 then 0 else units

end PriceModel

end TradeIn
