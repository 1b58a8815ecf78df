import TradeIn.Error.DocumentFault

/-!
# Store errors

What a store answers when it cannot do what was asked. Each error carries a text of its own.
-/

namespace TradeIn

/-- Why a store call failed. -/
inductive StoreError where
  /-- There is nothing under the given id. -/
  | notFound (text : String)
  /-- The id is taken. -/
  | duplicate (text : String)
  /-- The store could not be reached, or not in time. -/
  | unavailable (text : String)
  /-- The store itself failed. -/
  | database (text : String)
  /-- A stored document could not be written or read. -/
  | serialization (fault : DocumentFault)
  /-- The store refuses what it was given. -/
  | validation (text : String)
  deriving DecidableEq, Repr

namespace StoreError

/-- The error in words. -/
def message : StoreError → String
  | notFound text => "Not found: " ++ text
  | duplicate text => "Duplicate: " ++ text
  | unavailable text => "Store unavailable: " ++ text
  | database text => "Database error: " ++ text
  | serialization fault => "Serialization error: " ++ fault.text
  | validation text => "Validation error: " ++ text

/-- How a rule is named in an error. -/
def ruleName (id : Int64) : String := s!"pricing rule {id}"

/-- How a device type is named in an error. -/
def deviceTypeName (id : String) : String := s!"device type {id}"

end StoreError

end TradeIn
