import TradeIn.Catalog.Program

/-!
# Registering device types

A device type is registered without the blanks around its id, code and name. It needs a name; a blank code counts as
no code, and a blank id is replaced by a generated one.
-/

namespace TradeIn

/-- A device type that is accepted for registration, perhaps without an id. -/
structure NewDeviceType where
  id : Option String
  code : Option String
  name : String
  deriving DecidableEq, Repr

namespace NewDeviceType

/-- The device type under its own id or a generated one. -/
def withId (new : NewDeviceType) (generated : Int64) : DeviceType :=
  ⟨new.id.getD (toString generated), new.code, new.name⟩

end NewDeviceType

namespace DeviceTypeDraft

/-- A text without the blanks around it, if anything is left. -/
def nonBlank? (text : String) : Option String := if Text.isAllBlank text then none else some (Text.trim text)

/-- Accept a draft for registration, or say why not. -/
def accept (draft : DeviceTypeDraft) : Except PricingError NewDeviceType :=
  match nonBlank? draft.name with
  | none => .error (.validation "name must not be blank")
  | some name => .ok ⟨draft.id.bind nonBlank?, draft.code.bind nonBlank?, name⟩

end DeviceTypeDraft

namespace Catalog

/-- Register a device type; the generated id is used if the draft has none. -/
def registerDeviceType (generated : Int64) (draft : DeviceTypeDraft) : CatalogProgram DeviceType := do
  let new ← CatalogProgram.ofExcept draft.accept
  CatalogProgram.demand (.insertDeviceType (new.withId generated))

/-- The device types in the order of their registration. -/
def deviceTypes : CatalogProgram (List DeviceType) := CatalogProgram.demand .listDeviceTypes

end Catalog

end TradeIn
