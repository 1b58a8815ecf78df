import TradeIn.Error.Code
import TradeIn.Error.Pricing
import TradeIn.Json.Record

/-!
# Answers to clients

An `ApiError` is an error as a client sees it: a code, a message and details by key. An `ApiResponse` is the
envelope of such an answer; what it does not have is left out when it is written.
-/

namespace TradeIn

/-- An error as a client sees it. -/
structure ApiError where
  code : ErrorCode
  message : String
  details : Option (Members Json)
  deriving DecidableEq, Repr

namespace ApiError

/-- An error with the message of its code. -/
def ofCode (code : ErrorCode) : ApiError := ⟨code, code.defaultMessage, none⟩

/-- An error with a message of its own. -/
def withMessage (code : ErrorCode) (message : String) : ApiError := ⟨code, message, none⟩

/-- The error with one more detail, which replaces an earlier one of the same key. -/
def withDetail (key : String) (value : Json) (error : ApiError) : ApiError :=
  { error with details := some (Members.ofList (error.details.getD [] ++ [(key, value)])) }

/-- A request that cannot be accepted. -/
def validation (message : String) : ApiError := withMessage .validationFailed message

/-- A resource that does not exist. -/
def notFound (resource : String) : ApiError :=
  (withMessage .notFound (resource ++ " not found")).withDetail "resource" (.string resource)

/-- A resource that exists already. -/
def alreadyExists (resource : String) : ApiError :=
  (withMessage .alreadyExists (resource ++ " already exists")).withDetail "resource" (.string resource)

/-- No usable rule; the reason tells a missing rule from an unusable one. -/
def ruleNotConfigured (message reason : String) : ApiError :=
  (withMessage .ruleNotConfigured message).withDetail "reason" (.string reason)

/-- A failure that may pass. -/
def unavailable (message : String) : ApiError := withMessage .serviceUnavailable message

/-- How an error of the catalog or of pricing is reported. -/
def ofPricing (error : PricingError) : ApiError :=
  match error with
  | .notFound resource => notFound resource
  | .noRule typeAlias kind =>
    ((ruleNotConfigured error.message "rule_not_found").withDetail "typeAlias" (.string typeAlias)).withDetail
      "kind" (.string kind)
  | .ruleNotFound id => (withMessage .ruleNotFound error.message).withDetail "id" (.ofInt64 id)
  | .invalidRule id _ =>
    (ruleNotConfigured error.message "invalid_rule").withDetail "ruleId" (.ofInt64 id)
  | .storeUnavailable _ => unavailable error.message
  | .validation text => validation text
  | .conflict text => alreadyExists text

end ApiError

/-- The envelope of an answer. -/
structure ApiResponse where
  code : Option UInt16
  message : String
  data : Option Json
  details : Option (Members Json)
  deriving DecidableEq, Repr

namespace ApiResponse

/-- Success, with data if there is some. -/
def success (data : Option Json) : ApiResponse := ⟨some 0, "OK", data, none⟩

/-- The envelope of an error. -/
def ofError (error : ApiError) : ApiResponse := ⟨some error.code.number, error.message, none, error.details⟩

/-- Read an envelope. -/
def reader : Reader ApiResponse :=
  (ApiResponse.mk <$> .optionalMember "code" .uint16
    <*> .required "message" .string
    <*> .optionalMember "data" .json
    <*> .optionalMember "details" (.members .json) : RecordReader ApiResponse).read

/-- Write an envelope. -/
def toJson (response : ApiResponse) : Json :=
  let code := (response.code.map fun code => ("code", Json.ofUInt64 code.toUInt64)).toList
  let data := (response.data.map fun data => ("data", data)).toList
  let details := (response.details.map fun details => ("details", Json.object details)).toList
  .object (code ++ data ++ details ++ [("message", .string response.message)])

end ApiResponse

end TradeIn
