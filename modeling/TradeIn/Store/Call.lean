import TradeIn.DeviceType.Basic
import TradeIn.Error.Store
import TradeIn.Rule.Basic

/-!
# Store calls

A store is used through single calls, each of which either fails as a whole or answers as a whole. `StoreProgram`
is a computation that makes such calls one after the other: what it calls next may depend on the answers so far.
The catalog is written as store programs, so that the same operations can be run alone against a store, against a
store that fails, or interleaved call by call with others.
-/

namespace TradeIn

/-- Which rules to list. -/
structure RuleQuery where
  /-- Rules under one of these aliases; any alias if there is no set. -/
  aliases : Option AliasSet
  kind : Option String
  activeOnly : Bool
  deriving DecidableEq, Repr

namespace RuleQuery

/-- The rules of an alias set and a kind. -/
def ofAliases (aliases : AliasSet) (kind : String) : RuleQuery := ⟨some aliases, some kind, false⟩

/-- Only the active ones of the rules. -/
def onlyActive (query : RuleQuery) : RuleQuery := { query with activeOnly := true }

/-- Whether a rule is one of those asked for. -/
def accepts (query : RuleQuery) (rule : Rule) : Bool :=
  (!query.activeOnly || rule.isActive) &&
    (query.kind.all fun kind => rule.kind == kind) &&
    (query.aliases.all fun aliases => aliases.contains rule.typeAlias)

end RuleQuery

/-- A single call to a store. -/
inductive StoreCall where
  /-- Store a new rule and stamp its revision. -/
  | insertRule (rule : Rule)
  | findRule (id : Int64)
  /-- List rules, newest first. -/
  | listRules (query : RuleQuery)
  /-- Set whether a rule is active and stamp its revision. -/
  | setRuleActive (id : Int64) (active : Bool)
  /-- The same, but only if the rule still has the given revision. -/
  | setRuleActiveIf (id : Int64) (active : Bool) (revision : UInt64)
  | insertDeviceType (deviceType : DeviceType)
  /-- Find a device type by its id, code or name. -/
  | findDeviceType (reference : String)
  /-- List device types in the order of their registration. -/
  | listDeviceTypes
  deriving DecidableEq, Repr

namespace StoreCall

/-- The kinds of calls. -/
inductive Kind where
  | insertRule
  | findRule
  | listRules
  | setRuleActive
  | setRuleActiveIf
  | insertDeviceType
  | findDeviceType
  | listDeviceTypes
  deriving DecidableEq, Repr

/-- The kind of a call. -/
def kind : StoreCall → Kind
  | insertRule _ => .insertRule
  | findRule _ => .findRule
  | listRules _ => .listRules
  | setRuleActive _ _ => .setRuleActive
  | setRuleActiveIf _ _ _ => .setRuleActiveIf
  | insertDeviceType _ => .insertDeviceType
  | findDeviceType _ => .findDeviceType
  | listDeviceTypes => .listDeviceTypes

/-- The name of a kind of call. -/
def Kind.name : Kind → String
  | insertRule => "insert_rule"
  | findRule => "find_rule"
  | listRules => "list_rules"
  | setRuleActive => "set_rule_active"
  | setRuleActiveIf => "set_rule_active_if"
  | insertDeviceType => "insert_device_type"
  | findDeviceType => "find_device_type"
  | listDeviceTypes => "list_device_types"

/-- What a call answers when it succeeds. -/
abbrev Answer : StoreCall → Type
  | insertRule _ => Rule
  | findRule _ => Option Rule
  | listRules _ => List Rule
  | setRuleActive _ _ => Rule
  | setRuleActiveIf _ _ _ => Option Rule
  | insertDeviceType _ => DeviceType
  | findDeviceType _ => Option DeviceType
  | listDeviceTypes => List DeviceType

/-- What a call answers, or why it failed. -/
abbrev Result (call : StoreCall) : Type := Except StoreError call.Answer

end StoreCall

/-- A computation that makes store calls. -/
inductive StoreProgram (α : Type) where
  /-- The result, without further calls. -/
  | done (result : α)
  /-- A call, and what to do with its result. -/
  | call (request : StoreCall) (next : request.Result → StoreProgram α)

namespace StoreProgram

variable {α β σ : Type}

/-- Go on with the result of a program. -/
def andThen : StoreProgram α → (α → StoreProgram β) → StoreProgram β
  | done result, f => f result
  | call request next, f => call request fun result => andThen (next result) f

instance : Monad StoreProgram where
  pure := done
  bind := andThen

/-- The program of a single call. -/
def ofCall (request : StoreCall) : StoreProgram request.Result := call request done

/-- Run a program alone against a store. -/
def run (serve : (request : StoreCall) → σ → request.Result × σ) : StoreProgram α → σ → α × σ
  | done result, store => (result, store)
  | call request next, store =>
    let answered := serve request store
    run serve (next answered.1) answered.2

/-- A program and what follows it run one after the other. -/
theorem run_andThen (serve : (request : StoreCall) → σ → request.Result × σ) (program : StoreProgram α)
    (f : α → StoreProgram β) (store : σ) :
    (program.andThen f).run serve store =
      (f (program.run serve store).1).run serve (program.run serve store).2 := by
  induction program generalizing store with
  | done result => rfl
  | call request next ih => exact ih _ _

end StoreProgram

end TradeIn
