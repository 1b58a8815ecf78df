import TradeIn.Price.Model

/-!
# Rule bodies

A stored rule body lists its adjustments as objects `{"if": condition, "then": delta}`, or gives them by field: for
each field the deltas of its options, or one amount `perUnit`. `RuleBody.model` brings both into a price model.
Parts that make no sense are left out and never reported.
-/

namespace TradeIn

/-- The adjustments of a rule body in the shape they are stored in. -/
inductive StoredAdjustments where
  /-- A list of conditions with their deltas. -/
  | listed (entries : List Json)
  /-- An object from fields to their options; empty when a body has no adjustments. -/
  | byField (fields : List (String × Json))
  deriving DecidableEq, Repr

/-- A stored rule body. -/
structure RuleBody where
  storedBasePrice : Option Json
  storedMinPrice : Option Json
  adjustments : StoredAdjustments
  deriving DecidableEq, Repr

namespace RuleBody

/-- The parts of a stored body. A body that is no object has none of them. -/
def ofJson (body : Json) : RuleBody where
  storedBasePrice := body.get? "basePrice"
  storedMinPrice := body.get? "minPrice"
  adjustments := match body.get? "adjustments" with
    | some (.array entries) => .listed entries
    | some (.object fields) => .byField fields
    | _ => .byField []

/-- The base price, if there is one and it is a number. -/
def basePrice? (body : RuleBody) : Option Finite64 := body.storedBasePrice.bind Json.finite?

/-- The least price; zero if there is none or it is no number. -/
def minPrice (body : RuleBody) : Finite64 := (body.storedMinPrice.bind Json.finite?).getD .zero

/-- Whether the adjustments are stored by field. -/
def isByField (body : RuleBody) : Bool :=
  match body.adjustments with
  | .listed _ => false
  | .byField _ => true

/-- The adjustment of a listed entry, if it has a numeric delta. An entry without a condition never applies. -/
def listedAdjustment? (entry : Json) : Option Adjustment := do
  let delta ← (← entry.get? "then").finite?
  let condition := match entry.get? "if" with
    | some condition => Condition.ofJson condition
    | none => .unrecognized .null
  return ⟨condition, .finite delta⟩

/-- The answer that selects an option: the spelling of the option, or a boolean for `true` and `false`. -/
def optionAnswer (option : String) : Json :=
  if option = "true" then .bool true
  else if option = "false" then .bool false
  else .string option

/-- The amount per unit of a field, if its definition has one. -/
def fieldPerUnit? (definition : Json) : Option Finite64 := (definition.get? "perUnit").bind Json.finite?

/-- The adjustments of a field. A field with an amount per unit keeps a place in the list with a delta of zero. -/
def fieldAdjustments (field : String) (definition : Json) : List Adjustment :=
  match fieldPerUnit? definition, definition with
  | some _, _ => [⟨.answer field, .finite .zero⟩]
  | none, .object options => options.filterMap fun option => do
    let delta ← option.2.finite?
    return ⟨.answerEquals field (optionAnswer option.1), .finite delta⟩
  | none, _ => []

/-- The price model of a body. A base price that cannot be used is zero here. -/
def model (body : RuleBody) : PriceModel where
  basePrice := .finite (body.basePrice?.getD .zero)
  minPrice := .finite body.minPrice
  adjustments := match body.adjustments with
    | .listed entries => entries.filterMap listedAdjustment?
    | .byField fields => fields.flatMap fun field => fieldAdjustments field.1 field.2
  perUnit := match body.adjustments with
    | .listed _ => []
    | .byField fields => fields.filterMap fun field => do
      return (field.1, .finite (← fieldPerUnit? field.2))

end RuleBody

end TradeIn
