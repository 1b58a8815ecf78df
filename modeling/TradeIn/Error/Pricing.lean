import TradeIn.Error.Store

/-!
# Errors of the catalog and of pricing

Only failures that the caller has to know about are errors; malformed parts of a rule are not. A store that cannot
be reached is one error whatever its reason, so that a caller can try again.
-/

namespace TradeIn

/-- Why the catalog or the pricing of a quote failed. -/
inductive PricingError where
  | notFound (resource : String)
  /-- No rule is stored for the device type and kind. -/
  | noRule (typeAlias kind : String)
  /-- No rule has the id. -/
  | ruleNotFound (id : Int64)
  /-- The rule cannot be priced with. -/
  | invalidRule (id : Int64) (reason : String)
  /-- The store could not be reached or failed. -/
  | storeUnavailable (text : String)
  | validation (text : String)
  | conflict (text : String)
  deriving DecidableEq, Repr

namespace PricingError

/-- The error in words. -/
def message : PricingError → String
  | notFound resource => resource ++ " not found"
  | noRule typeAlias kind => s!"No pricing rule for type '{typeAlias}' and kind '{kind}'"
  | ruleNotFound id => s!"Pricing rule {id} not found"
  | invalidRule id reason => s!"Pricing rule {id} is invalid: {reason}"
  | storeUnavailable text => "Rule store unavailable: " ++ text
  | validation text => "Validation error: " ++ text
  | conflict text => "Conflict: " ++ text

/-- What an error of the store means to the catalog. -/
def ofStore : StoreError → PricingError
  | .notFound text => notFound text
  | .duplicate text => conflict text
  | .validation text => validation text
  | .unavailable text => storeUnavailable text
  | .database text => storeUnavailable text
  | .serialization fault => storeUnavailable fault.text

end PricingError

/-- Why the service could not start. -/
inductive StartupError where
  /-- A setting cannot be used. -/
  | config (text : String)
  /-- The store could not be opened. -/
  | store (error : StoreError)
  | io (text : String)
  deriving DecidableEq, Repr

namespace StartupError

/-- The error in words. -/
def message : StartupError → String
  | config text => "配置错误: " ++ text
  | store error => "Failed to open rule store: " ++ error.message
  | io text => "I/O error: " ++ text

end StartupError

end TradeIn
