import TradeIn.Json.Reader

/-!
# Error codes

Every answer to a client carries a code: zero for success, and otherwise a number whose thousands tell the
category of the error.
-/

namespace TradeIn

/-- The category of an error. -/
inductive ErrorCategory where
  | general
  | catalog
  | pricing
  | system
  deriving DecidableEq, Repr

namespace ErrorCategory

/-- The category of a code: 6xxx is the catalog, 7xxx is pricing, everything from 9000 on is the system. -/
def ofNumber (code : UInt16) : ErrorCategory :=
  if 6000 ≤ code ∧ code < 7000 then catalog
  else if 7000 ≤ code ∧ code < 8000 then pricing
  else if 9000 ≤ code then system
  else general

/-- The name of the category. -/
def name : ErrorCategory → String
  | general => "general"
  | catalog => "catalog"
  | pricing => "pricing"
  | system => "system"

/-- The category with a name. -/
def ofName? (name : String) : Option ErrorCategory :=
  [general, catalog, pricing, system].find? fun category => category.name == name

/-- Read a category: its name, or an object whose only key is its name and whose value is null. -/
def reader : Reader ErrorCategory
  | .string name => match ofName? name with
    | some category => .ok category
    | none => .error .mismatched
  | .object [(some name, .null)] true => match ofName? name with
    | some category => .ok category
    | none => .error .mismatched
  | parsed => .error parsed.misfit

/-- Write a category. -/
def toJson (category : ErrorCategory) : Json := .string category.name

end ErrorCategory

/-- What an answer to a client reports. -/
inductive ErrorCode where
  | success
  | validationFailed
  | notFound
  | alreadyExists
  /-- There is no rule with the requested id. -/
  | ruleNotFound
  /-- No usable rule is configured for a device type and kind. -/
  | ruleNotConfigured
  /-- The store cannot be reached for now. -/
  | serviceUnavailable
  deriving DecidableEq, Repr

namespace ErrorCode

/-- The codes in increasing order. -/
def all : List ErrorCode :=
  [success, validationFailed, notFound, alreadyExists, ruleNotFound, ruleNotConfigured, serviceUnavailable]

/-- The number of a code. -/
def number : ErrorCode → UInt16
  | success => 0
  | validationFailed => 2
  | notFound => 3
  | alreadyExists => 4
  | ruleNotFound => 6101
  | ruleNotConfigured => 7001
  | serviceUnavailable => 9006

/-- The code with a number. -/
def ofNumber? (n : UInt16) : Option ErrorCode := all.find? fun code => code.number == n

/-- Why a number is no code. -/
def unknownNumberMessage (n : UInt16) : String := s!"invalid error code: {n}"

/-- The message that goes with a code when there is no other. -/
def defaultMessage : ErrorCode → String
  | success => "Operation completed successfully"
  | validationFailed => "Validation failed"
  | notFound => "Resource not found"
  | alreadyExists => "Resource already exists"
  | ruleNotFound => "Pricing rule not found"
  | ruleNotConfigured => "No pricing rule configured"
  | serviceUnavailable => "Pricing service temporarily unavailable"

/-- The HTTP status of an answer with the code. An unusable rule is reported like a missing one. -/
def status : ErrorCode → Nat
  | success => 200
  | validationFailed => 400
  | notFound => 404
  | alreadyExists => 409
  | ruleNotFound => 404
  | ruleNotConfigured => 404
  | serviceUnavailable => 503

/-- The category of the code. -/
def category (code : ErrorCode) : ErrorCategory := .ofNumber code.number

/-- Whether the code reports success. -/
def isSuccess (code : ErrorCode) : Bool := code == success

/-- The code with the letter E and at least four digits. -/
def label (code : ErrorCode) : String :=
  let digits := toString code.number
  "E" ++ String.ofList (List.replicate (4 - digits.length) '0') ++ digits

/-- Read a code. -/
def reader : Reader ErrorCode := fun parsed => do
  let n ← Reader.uint16 parsed
  match ofNumber? n with
  | some code => .ok code
  | none => .error .mismatched

/-- Write a code. -/
def toJson (code : ErrorCode) : Json := .ofUInt64 code.number.toUInt64

end ErrorCode

end TradeIn
