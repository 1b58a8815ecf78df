import TradeIn.Catalog.Program

/-!
# Resolving references to device types

A reference stands for the aliases of the device type that it names, and for itself. A reference that names no type
stands for itself alone, and so does every reference while the store does not answer.
-/

namespace TradeIn.Catalog

/-- The aliases that a reference stands for, given what the store says about it. -/
def aliasesOf (reference : String) : Except StoreError (Option DeviceType) → AliasSet
  | .ok (some deviceType) => .ofDeviceType deviceType reference
  | .ok none => .single reference
  | .error _ => .single reference

/-- The aliases that a reference stands for. -/
def resolve (reference : String) : StoreProgram AliasSet :=
  .call (.findDeviceType reference) fun result => .done (aliasesOf reference result)

end TradeIn.Catalog
