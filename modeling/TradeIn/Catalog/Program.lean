import TradeIn.Error.Pricing
import TradeIn.Store.Call

/-!
# Catalog programs

A catalog operation is a store program that may fail. The failure of a store call that an operation depends on is
its own failure; `StoreProgram.ofCall` alone leaves the failure to the operation.
-/

namespace TradeIn

/-- A store program that may fail. -/
abbrev CatalogProgram (α : Type) : Type := ExceptT PricingError StoreProgram α

namespace CatalogProgram

variable {α : Type}

/-- Make a call whose failure is the failure of the operation. -/
def demand (request : StoreCall) : CatalogProgram request.Answer :=
  ExceptT.mk (.call request fun result => .done (result.mapError PricingError.ofStore))

/-- Fail with an error. -/
def fail (error : PricingError) : CatalogProgram α := ExceptT.mk (.done (.error error))

/-- Go on with a result or fail. -/
def ofExcept (result : Except PricingError α) : CatalogProgram α := ExceptT.mk (.done result)

/-- Run a store program that cannot fail. -/
def ofProgram (program : StoreProgram α) : CatalogProgram α := ExceptT.lift program

end CatalogProgram

end TradeIn
