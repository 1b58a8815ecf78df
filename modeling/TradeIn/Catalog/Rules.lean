import TradeIn.Catalog.Resolution

/-!
# The catalog of rules

Of the rules under the aliases of one device type and one kind, at most one is meant to be active. The store
changes one rule at a time, so activation has two steps: the rule is made active, which stamps the highest revision
on it, and then its siblings are settled. Settling keeps the active rule with the highest revision and makes the
others inactive, each only if it still has the revision that was read, so that an old settling never undoes a later
activation.
-/

namespace TradeIn

/-- A rule that is accepted for the catalog, before it gets an id. -/
structure NewRule where
  typeAlias : String
  kind : String
  version : Int64
  isActive : Bool
  body : Json
  deriving DecidableEq, Repr

namespace NewRule

/-- The rule with an id and the time of its creation. -/
def stamped (new : NewRule) (id createdAt : Int64) : Rule where
  id := id
  typeAlias := new.typeAlias
  kind := new.kind
  version := new.version
  isActive := new.isActive
  body := new.body
  createdAt := createdAt
  revision := 0

end NewRule

namespace RuleDraft

/-- Accept a draft for the catalog, or say why not. -/
def accept (draft : RuleDraft) : Except PricingError NewRule :=
  let version := draft.version.getD 1
  if Text.isAllBlank draft.typeAlias then .error (.validation "typeAlias must not be blank")
  else if Text.isAllBlank draft.kind then .error (.validation "kind must not be blank")
  else if version < 1 then .error (.validation s!"version must be >= 1, got {version}")
  else if !draft.body.isObject then .error (.validation "body must be a JSON object")
  else .ok ⟨Text.trim draft.typeAlias, Text.trim draft.kind, version, draft.isActive.getD false, draft.body⟩

end RuleDraft

namespace Rule

/-- The last of the greatest rules of a list under an order. -/
def greatest? (notAbove : Rule → Rule → Bool) : List Rule → Option Rule
  | [] => none
  | rule :: rules =>
    some (rules.foldl (fun greatest rule => if notAbove greatest rule then rule else greatest) rule)

/-- The order of revisions. -/
def revisionNotAbove (a b : Rule) : Bool := a.revision ≤ b.revision

/-- The order of revisions, and of ids under one revision. -/
def stampNotAbove (a b : Rule) : Bool := a.revision < b.revision || (a.revision == b.revision && a.id ≤ b.id)

/-- The active rules that settling makes inactive: all but the one with the highest revision. -/
def losers (active : List Rule) : List Rule :=
  match greatest? stampNotAbove active with
  | none => []
  | some winner => active.filter fun rule => rule.id ≠ winner.id

/-- The rule in effect among those listed: the active one with the highest revision, else the first. -/
def inEffect? (listed : List Rule) : Option Rule :=
  (greatest? revisionNotAbove (listed.filter fun rule => rule.isActive)) <|> listed.head?

end Rule

namespace Catalog

/-- The rules that a filter asks for by their exact alias, newest first. -/
def rules (filter : RuleFilter) : CatalogProgram (List Rule) :=
  CatalogProgram.demand (.listRules ⟨filter.typeAlias.map AliasSet.single, filter.kind, false⟩)

/-- The rule with an id. -/
def rule (id : Int64) : CatalogProgram Rule := do
  match ← CatalogProgram.demand (.findRule id) with
  | some rule => return rule
  | none => CatalogProgram.fail (.ruleNotFound id)

/-- Make rules inactive that still have the revision they were read with. -/
def deactivate : List Rule → CatalogProgram Unit
  | [] => return ()
  | rule :: rules => do
    let _ ← CatalogProgram.demand (.setRuleActiveIf rule.id false rule.revision)
    deactivate rules

/-- Make all active rules of an alias set and a kind inactive but the one with the highest revision. -/
def settle (aliases : AliasSet) (kind : String) : CatalogProgram Unit := do
  let active ← CatalogProgram.demand (.listRules (RuleQuery.ofAliases aliases kind).onlyActive)
  deactivate (Rule.losers active)

/-- Settle the siblings of a rule. -/
def settleSiblings (rule : Rule) : CatalogProgram Unit := do
  let aliases ← CatalogProgram.ofProgram (resolve rule.typeAlias)
  settle aliases rule.kind

/-- Create a rule with a generated id; an active rule takes over from its active siblings. -/
def createRule (id createdAt : Int64) (draft : RuleDraft) : CatalogProgram Rule := do
  let new ← CatalogProgram.ofExcept draft.accept
  let created ← CatalogProgram.demand (.insertRule (new.stamped id createdAt))
  if created.isActive then settleSiblings created
  return created

/-- Make a rule active and its siblings inactive; the answer is the rule after that. -/
def activateRule (id : Int64) : CatalogProgram Rule := do
  let target ← rule id
  let _ ← CatalogProgram.demand (.setRuleActive target.id true)
  settleSiblings target
  rule id

/-- The rule in effect for an alias set and a kind. -/
def ruleInEffect? (aliases : AliasSet) (kind : String) : CatalogProgram (Option Rule) := do
  let listed ← CatalogProgram.demand (.listRules (.ofAliases aliases kind))
  return Rule.inEffect? listed

/-- The rule in effect for a reference to a device type and a kind. -/
def ruleInEffect (typeAlias kind : String) : CatalogProgram Rule := do
  let aliases ← CatalogProgram.ofProgram (resolve typeAlias)
  match ← ruleInEffect? aliases kind with
  | some rule => return rule
  | none => CatalogProgram.fail (.noRule typeAlias kind)

end Catalog

end TradeIn
