import TradeIn.Json.Record

/-!
# Pricing rules

A rule belongs to a device type, named by any of the type's aliases, and to a kind, and holds a body as it was
submitted. Once stored, a rule changes only in whether it is active and in the revision that the store stamps on
every write. A `RuleDraft` is what a new rule is made from.
-/

namespace TradeIn

/-- A stored pricing rule. -/
structure Rule where
  id : Int64
  /-- The device type, by its id, code or name as the author wrote it. -/
  typeAlias : String
  /-- The partition that the rule belongs to. -/
  kind : String
  version : Int64
  isActive : Bool
  /-- The body as it was submitted. -/
  body : Json
  /-- Milliseconds since 1970. -/
  createdAt : Int64
  /-- The number of the store's last write to the rule. -/
  revision : UInt64
  deriving DecidableEq, Repr

namespace Rule

/-- The kind of the rules that set trade-in prices. -/
def pricingKind : String := "pricing"

/-- Read a rule. -/
def reader : Reader Rule :=
  (Rule.mk <$> .required "id" .int64
    <*> .required "typeAlias" .string
    <*> .required "kind" .string
    <*> .required "version" .int64
    <*> .required "isActive" .bool
    <*> .required "body" .json
    <*> .required "createdAt" .int64
    <*> .defaulted "revision" 0 .uint64 : RecordReader Rule).read

/-- Write a rule. -/
def toJson (rule : Rule) : Json :=
  .object
    [("body", rule.body),
      ("createdAt", .ofInt64 rule.createdAt),
      ("id", .ofInt64 rule.id),
      ("isActive", .bool rule.isActive),
      ("kind", .string rule.kind),
      ("revision", .ofUInt64 rule.revision),
      ("typeAlias", .string rule.typeAlias),
      ("version", .ofInt64 rule.version)]

/-- The document of a rule: what is written of it, with the fields in the order of their declaration, in which they stand
in the text. -/
def document (rule : Rule) : Json :=
  .object
    [("id", .ofInt64 rule.id),
      ("typeAlias", .string rule.typeAlias),
      ("kind", .string rule.kind),
      ("version", .ofInt64 rule.version),
      ("isActive", .bool rule.isActive),
      ("body", rule.body),
      ("createdAt", .ofInt64 rule.createdAt),
      ("revision", .ofUInt64 rule.revision)]

/-- The rule was created later, or at the same time under a greater or equal id. -/
def notOlder (a b : Rule) : Bool :=
  b.createdAt < a.createdAt || (a.createdAt == b.createdAt && b.id ≤ a.id)

/-- Put a rule in front of the first one that is not newer. -/
def insertByAge (rule : Rule) : List Rule → List Rule
  | [] => [rule]
  | other :: rest => if rule.notOlder other then rule :: other :: rest else other :: insertByAge rule rest

/-- The rules from the newest to the oldest; rules that agree in age and id keep their order. -/
def newestFirst (rules : List Rule) : List Rule := rules.foldr insertByAge []

/-- Putting a rule in its place only rearranges. -/
theorem insertByAge_perm (rule : Rule) (sorted : List Rule) : (insertByAge rule sorted).Perm (rule :: sorted) := by
  induction sorted with
  | nil => exact .refl _
  | cons other rest ih =>
    simp only [insertByAge]
    split
    · exact .refl _
    · exact (ih.cons other).trans (.swap rule other rest)

/-- The same rules are there before and after. -/
theorem newestFirst_perm (rules : List Rule) : (newestFirst rules).Perm rules := by
  induction rules with
  | nil => exact .refl _
  | cons rule rest ih => exact (insertByAge_perm rule _).trans (ih.cons rule)

end Rule

/-- What a new rule is made from. -/
structure RuleDraft where
  typeAlias : String
  kind : String
  /-- One if it is left out. -/
  version : Option Int64
  /-- Inactive if it is left out. -/
  isActive : Option Bool
  body : Json
  deriving DecidableEq, Repr

namespace RuleDraft

/-- Read a draft. -/
def reader : Reader RuleDraft :=
  (RuleDraft.mk <$> .required "typeAlias" .string
    <*> .required "kind" .string
    <*> .optional "version" .int64
    <*> .optional "isActive" .bool
    <*> .required "body" .json : RecordReader RuleDraft).read

/-- Write a draft. -/
def toJson (draft : RuleDraft) : Json :=
  .object
    [("body", draft.body),
      ("isActive", (draft.isActive.map Json.bool).getD .null),
      ("kind", .string draft.kind),
      ("typeAlias", .string draft.typeAlias),
      ("version", (draft.version.map Json.ofInt64).getD .null)]

end RuleDraft

/-- Which rules to list: those with exactly this alias and kind, where they are given. -/
structure RuleFilter where
  typeAlias : Option String
  kind : Option String
  deriving DecidableEq, Repr

namespace RuleFilter

/-- Read a filter. -/
def reader : Reader RuleFilter :=
  (RuleFilter.mk <$> .optional "typeAlias" .string <*> .optional "kind" .string : RecordReader RuleFilter).read

/-- Write a filter. -/
def toJson (filter : RuleFilter) : Json :=
  .object
    [("kind", (filter.kind.map Json.string).getD .null),
      ("typeAlias", (filter.typeAlias.map Json.string).getD .null)]

end RuleFilter

/-- The answer to a rule that was created. -/
structure RuleCreated where
  id : Int64
  deriving DecidableEq, Repr

namespace RuleCreated

/-- Read the answer. -/
def reader : Reader RuleCreated :=
  (RuleCreated.mk <$> .required "id" .int64 : RecordReader RuleCreated).read

/-- Write the answer. -/
def toJson (created : RuleCreated) : Json := .object [("id", .ofInt64 created.id)]

end RuleCreated

/-- The answer to a rule that was activated. -/
structure RuleActivation where
  id : Int64
  typeAlias : String
  kind : String
  isActive : Bool
  deriving DecidableEq, Repr

namespace RuleActivation

/-- What is answered about a rule. -/
def ofRule (rule : Rule) : RuleActivation := ⟨rule.id, rule.typeAlias, rule.kind, rule.isActive⟩

/-- Read the answer. -/
def reader : Reader RuleActivation :=
  (RuleActivation.mk <$> .required "id" .int64
    <*> .required "typeAlias" .string
    <*> .required "kind" .string
    <*> .required "isActive" .bool : RecordReader RuleActivation).read

/-- Write the answer. -/
def toJson (activation : RuleActivation) : Json :=
  .object
    [("id", .ofInt64 activation.id),
      ("isActive", .bool activation.isActive),
      ("kind", .string activation.kind),
      ("typeAlias", .string activation.typeAlias)]

end RuleActivation

end TradeIn
