import TradeIn.Http.Message

/-!
# Routes

The resources of the service by their paths, and the methods that each of them takes.
-/

namespace TradeIn.Http

/-- A resource of the service. -/
inductive Route where
  | health
  | deviceTypes
  | rules
  /-- The rule in effect for a device type. -/
  | ruleInEffect
  /-- The rule with the id that a part of the path writes. -/
  | rule (id : String)
  /-- The activation of the rule with the id that a part of the path writes. -/
  | activation (id : String)
  | price
  | recompute
  deriving DecidableEq, Repr

namespace Route

/-- The resource at a path. An id at the end of a path must not be empty; elsewhere it may be. -/
def ofPath? (path : String) : Option Route :=
  match path.splitOn "/" with
  | ["", "health"] => some health
  | ["", "api", "device-types"] => some deviceTypes
  | ["", "api", "pricing-rules"] => some rules
  | ["", "api", "pricing-rules", id] =>
    if id = "active" then some ruleInEffect else if id.isEmpty then none else some (rule id)
  | ["", "api", "pricing-rules", id, "activate"] => some (activation id)
  | ["", "api", "quotes", "price"] => some price
  | ["", "api", "quotes", "recompute"] => some recompute
  | _ => none

/-- The methods that a resource takes. -/
def methods : Route → List String
  | health => ["GET", "HEAD"]
  | deviceTypes => ["GET", "HEAD", "POST"]
  | rules => ["GET", "HEAD", "POST"]
  | ruleInEffect => ["GET", "HEAD"]
  | rule _ => ["GET", "HEAD"]
  | activation _ => ["POST"]
  | price => ["POST"]
  | recompute => ["POST"]

end Route

end TradeIn.Http
