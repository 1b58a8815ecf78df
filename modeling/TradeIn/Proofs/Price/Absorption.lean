import TradeIn.Proofs.Condition.DirectReading
import TradeIn.Proofs.Price.Sum

/-!
# Parts of a rule that make no sense

Adjustments are written by hand, so a stored body may hold parts that make no sense. Some of them are left out of the
price model, others become conditions that never hold; none of them leaves a trace on the price. A body that is padded
with such parts in any places (`RuleBody.Padded`) has the same price or is refused with the same error.
-/

namespace TradeIn

/-- A list with further items put in at any places: the old items are still there in their order, each as it was or
changed as `changed` allows, and every further item is `inert`. -/
inductive PaddedList {α : Type} (inert : α → Prop) (changed : α → α → Prop) : List α → List α → Prop
  | nil : PaddedList inert changed [] []
  | keep {item now : α} {items padded : List α} (hitem : changed item now) (h : PaddedList inert changed items padded) :
    PaddedList inert changed (item :: items) (now :: padded)
  | insert {item : α} {items padded : List α} (hitem : inert item) (h : PaddedList inert changed items padded) :
    PaddedList inert changed items (item :: padded)

namespace PaddedList

variable {α β : Type} {inert : α → Prop} {changed : α → α → Prop} {items padded : List α}

/-- Where inert items give nothing and changed items give what they gave, all items together give the same. -/
theorem flatMap_eq (h : PaddedList inert changed items padded) {give : α → List β}
    (hinert : ∀ item, inert item → give item = []) (hchanged : ∀ item now, changed item now → give now = give item) :
    padded.flatMap give = items.flatMap give := by
  induction h with
  | nil => rfl
  | keep hitem _ ih => rw [List.flatMap_cons, List.flatMap_cons, hchanged _ _ hitem, ih]
  | insert hitem _ ih => rw [List.flatMap_cons, hinert _ hitem, ih, List.nil_append]

/-- The same for items that give at most one thing each. -/
theorem filterMap_eq (h : PaddedList inert changed items padded) {give : α → Option β}
    (hinert : ∀ item, inert item → give item = none) (hchanged : ∀ item now, changed item now → give now = give item) :
    padded.filterMap give = items.filterMap give := by
  induction h with
  | nil => rfl
  | keep hitem _ ih => simp only [List.filterMap_cons, hchanged _ _ hitem, ih]
  | insert hitem _ ih => rw [List.filterMap_cons_none (hinert _ hitem), ih]

end PaddedList

namespace RuleBody

/-- A listed entry that makes no sense: it is no object, its delta is missing or no number, or its condition is missing
or has neither of the two shapes. -/
def IsInertEntry (entry : Json) : Prop :=
  entry.isObject = false ∨ (entry.get? "then").bind Json.finite? = none ∨
    (entry.get? "if").any Json.isConditionShape = false

/-- Options with further ones under new keys, none of which has a number as its delta. -/
def PaddedOptions (options padded : List (String × Json)) : Prop :=
  PaddedList (fun option => option.1 ∉ options.map Prod.fst ∧ option.2.finite? = none) Eq options padded

/-- A field as it was, or with padded options. -/
inductive PaddedField : String × Json → String × Json → Prop
  | same (field : String × Json) : PaddedField field field
  | options {field : String} {options padded : List (String × Json)} (h : PaddedOptions options padded) :
    PaddedField (field, .object options) (field, .object padded)

/-- Adjustments in either shape with parts that make no sense: listed entries, fields whose definition is no object, and
options without a number. -/
inductive PaddedAdjustments : Json → Json → Prop
  | listed {entries padded : List Json} (h : PaddedList IsInertEntry Eq entries padded) :
    PaddedAdjustments (.array entries) (.array padded)
  | byField {fields padded : List (String × Json)}
    (h : PaddedList (fun field => field.2.isObject = false) PaddedField fields padded) :
    PaddedAdjustments (.object fields) (.object padded)

/-- A body whose adjustments are padded with parts that make no sense. -/
structure Padded (body padded : Json) : Prop where
  basePrice : padded.get? "basePrice" = body.get? "basePrice"
  minPrice : padded.get? "minPrice" = body.get? "minPrice"
  adjustments : ∃ adjustments more, body.get? "adjustments" = some adjustments ∧
    padded.get? "adjustments" = some more ∧ PaddedAdjustments adjustments more

variable {entry definition body padded : Json} {field : String} {options more : List (String × Json)}
  {answers : Answers}

/-- A condition that has neither of the two shapes never holds. -/
theorem holds_ofJson_eq_false {condition : Json} (hshape : condition.isConditionShape = false) :
    (Condition.ofJson condition).holds answers = false := by
  rw [Condition.holds_ofJson, Condition.ofJson, Condition.maxDepth, Condition.isRecognized_ofJsonWithin_succ, hshape,
    Bool.false_and]

/-- The adjustment of an entry that makes no sense, if it has one, never applies. -/
theorem not_holds_of_isInertEntry (hentry : IsInertEntry entry) {adjustment : Adjustment}
    (hadjustment : listedAdjustment? entry = some adjustment) : adjustment.condition.holds answers = false := by
  simp only [listedAdjustment?, bind, pure, Option.bind_eq_some_iff, Option.some.injEq] at hadjustment
  obtain ⟨value, hvalue, delta, hdelta, rfl⟩ := hadjustment
  rcases hentry with hobject | hthen | hif
  · cases entry with
    | object members => cases hobject
    | null | bool | number | string | array => cases hvalue
  · rw [hvalue, Option.bind_some, hdelta] at hthen
    cases hthen
  · cases hget : entry.get? "if" with
    | none => rfl
    | some condition =>
      rw [hget, Option.any_some] at hif
      exact holds_ofJson_eq_false hif

/-- Entries that make no sense leave the deltas that are added as they are. -/
theorem filter_listedAdjustments_eq {entries padded : List Json} (h : PaddedList IsInertEntry Eq entries padded)
    (answers : Answers) :
    (padded.filterMap listedAdjustment?).filter (fun adjustment => adjustment.condition.holds answers) =
      (entries.filterMap listedAdjustment?).filter fun adjustment => adjustment.condition.holds answers := by
  simp only [List.filter_filterMap]
  refine h.filterMap_eq (fun entry hentry => ?_) fun entry now heq => by rw [heq]
  rw [Option.filter_eq_none_iff]
  intro adjustment hadjustment
  rw [not_holds_of_isInertEntry hentry hadjustment]
  exact Bool.false_ne_true

/-- Options without a number do not change the number under a key. -/
theorem bind_finite?_get?_eq {inert : String × Json → Prop} {key : String}
    (h : PaddedList inert Eq options more)
    (hinert : ∀ option, inert option → option.2.finite? = none ∧ (option.1 = key → Members.get? options key = none)) :
    (Members.get? more key).bind Json.finite? = (Members.get? options key).bind Json.finite? := by
  induction h with
  | nil => rfl
  | @keep item now options more hitem _ ih =>
    subst hitem
    obtain ⟨name, delta⟩ := item
    by_cases hkey : key = name
    · simp only [Members.get?_cons, hkey, if_true]
    · simp only [Members.get?_cons, hkey, if_false] at hinert ⊢
      exact ih hinert
  | @insert item options more hitem _ ih =>
    obtain ⟨hnumber, hnew⟩ := hinert item hitem
    obtain ⟨name, delta⟩ := item
    rw [Members.get?_cons]
    split
    · next hkey => rw [hnew hkey.symm, Option.bind_some, hnumber, Option.bind_none]
    · exact ih hinert

/-- Nor do they change whether a field has an amount per unit. -/
theorem fieldPerUnit?_eq_of_paddedOptions (h : PaddedOptions options more) :
    fieldPerUnit? (.object more) = fieldPerUnit? (.object options) := by
  refine bind_finite?_get?_eq h fun option hoption => ⟨hoption.2, fun hkey => ?_⟩
  rw [← hkey, Members.get?, List.lookup_eq_none_iff]
  intro other hother
  have hne : option.1 ≠ other.1 := by
    intro heq
    rw [heq] at hoption
    exact hoption.1 (List.mem_map_of_mem hother)
  exact bne_iff_ne.2 hne

/-- A field with padded options has the same adjustments. -/
theorem fieldAdjustments_eq_of_paddedOptions (h : PaddedOptions options more) :
    fieldAdjustments field (.object more) = fieldAdjustments field (.object options) := by
  have hperUnit := fieldPerUnit?_eq_of_paddedOptions h
  cases hamount : fieldPerUnit? (.object options) with
  | some amount =>
    rw [hamount] at hperUnit
    simp only [fieldAdjustments, hamount, hperUnit]
  | none =>
    rw [hamount] at hperUnit
    simp only [fieldAdjustments, hamount, hperUnit]
    refine h.filterMap_eq (fun option hoption => ?_) fun option now heq => by rw [heq]
    rw [hoption.2]
    rfl

/-- A field whose definition is no object has no adjustments and no amount per unit. -/
theorem fieldAdjustments_eq_nil (field : String) (hdefinition : definition.isObject = false) :
    fieldAdjustments field definition = [] ∧ fieldPerUnit? definition = none := by
  cases definition with
  | object members => cases hdefinition
  | null | bool | number | string | array => exact ⟨rfl, rfl⟩

/-- A price depends on the adjustments through the deltas that are added. -/
theorem price_eq_of_filter_eq {model other : PriceModel} (hbase : other.basePrice = model.basePrice)
    (hleast : other.minPrice = model.minPrice) (hperUnit : other.perUnit = model.perUnit)
    (hadjustments : other.adjustments.filter (fun adjustment => adjustment.condition.holds answers) =
      model.adjustments.filter fun adjustment => adjustment.condition.holds answers) :
    other.price answers = model.price answers := by
  have htotal : other.total answers = model.total answers := by
    rw [PriceModel.total, PriceModel.adjusted, hadjustments, hbase, hperUnit]
    rfl
  rw [PriceModel.price, htotal, hleast]
  rfl

/-- Padded adjustments give the same price. -/
theorem PaddedAdjustments.price_eq {adjustments more : Json} (h : PaddedAdjustments adjustments more)
    (hbase : padded.get? "basePrice" = body.get? "basePrice") (hleast : padded.get? "minPrice" = body.get? "minPrice")
    (hadjustments : body.get? "adjustments" = some adjustments) (hmore : padded.get? "adjustments" = some more)
    (answers : Answers) : (ofJson padded).model.price answers = (ofJson body).model.price answers := by
  have hbasePrice : (ofJson padded).model.basePrice = (ofJson body).model.basePrice := by
    simp only [model, basePrice?, ofJson, hbase]
  have hminPrice : (ofJson padded).model.minPrice = (ofJson body).model.minPrice := by
    simp only [model, minPrice, ofJson, hleast]
  cases h with
  | listed hentries =>
    refine price_eq_of_filter_eq hbasePrice hminPrice ?_ ?_
    · simp only [model, ofJson, hadjustments, hmore]
    · simp only [model, ofJson, hadjustments, hmore]
      exact filter_listedAdjustments_eq hentries answers
  | byField hfields =>
    refine price_eq_of_filter_eq hbasePrice hminPrice ?_ ?_
    · simp only [model, ofJson, hadjustments, hmore]
      refine hfields.filterMap_eq (fun field hfield => ?_) fun field now hnow => ?_
      · rw [(fieldAdjustments_eq_nil field.1 hfield).2]
        rfl
      · cases hnow with
        | same => rfl
        | options hoptions => rw [fieldPerUnit?_eq_of_paddedOptions hoptions]
    · simp only [model, ofJson, hadjustments, hmore]
      congr 1
      refine hfields.flatMap_eq (fun field hfield => ?_) fun field now hnow => ?_
      · exact (fieldAdjustments_eq_nil field.1 hfield).1
      · cases hnow with
        | same => rfl
        | options hoptions => exact fieldAdjustments_eq_of_paddedOptions hoptions

end RuleBody

namespace Quote

/-- A rule whose body is padded with parts that make no sense has the same price for the same answers, or is refused
with the same error: further entries in a list of adjustments, and further fields and options in adjustments by field,
leave no trace on it. -/
theorem prelimPrice_eq_of_padded (rule : Rule) {padded : Json} (h : RuleBody.Padded rule.body padded)
    (answers : Answers) :
    (Quote.ofRule { rule with body := padded } answers).map Quote.prelimPrice =
      (Quote.ofRule rule answers).map Quote.prelimPrice := by
  obtain ⟨hbase, hleast, adjustments, more, hadjustments, hmore, hpadded⟩ := h
  have hprice := hpadded.price_eq hbase hleast hadjustments hmore answers
  have hbasePrice : (RuleBody.ofJson padded).basePrice? = (RuleBody.ofJson rule.body).basePrice? := by
    simp only [RuleBody.basePrice?, RuleBody.ofJson, hbase]
  have hminPrice : (RuleBody.ofJson padded).minPrice = (RuleBody.ofJson rule.body).minPrice := by
    simp only [RuleBody.minPrice, RuleBody.ofJson, hleast]
  simp only [ofRule, hbasePrice, hminPrice]
  cases (RuleBody.ofJson rule.body).basePrice? with
  | none => rfl
  | some basePrice =>
    simp only
    split
    · rfl
    · exact congrArg Except.ok hprice

/-- A rule with the given adjustments. -/
private def ruleWith (adjustments : Json) : Rule where
  id := 1
  typeAlias := "phone"
  kind := Rule.pricingKind
  version := 1
  isActive := true
  body := .object [("adjustments", adjustments), ("basePrice", .ofInt64 500)]
  createdAt := 0
  revision := 1

/-- A listed adjustment. -/
private def chargerEntry : Json := .object [("if", .object [("var", .string "charger")]), ("then", .ofInt64 (-20))]

/-- Entries of which only one makes sense: a number, the adjustment, and ones without a number, a condition or a
shape. -/
private def paddedEntries : List Json :=
  [.ofInt64 42, chargerEntry, .object [("if", .object [("var", .string "charger")]), ("then", .string "10")],
    .object [("then", .ofInt64 99)], .object [("if", .object [("var", .ofInt64 7)]), ("then", .ofInt64 30)]]

/-- Adjustments by field. -/
private def storedFields : List (String × Json) :=
  [("screen", .object [("good", .ofInt64 20)]), ("storage", .object [("perUnit", .ofInt64 1)])]

/-- The same with a field that is no object, and with options without a number. -/
private def paddedFields : List (String × Json) :=
  [("color", .string "red"), ("screen", .object [("good", .ofInt64 20), ("perUnit", .string "none")]),
    ("storage", .object [("extra", .null), ("perUnit", .ofInt64 1)])]

private theorem padded_entries :
    RuleBody.Padded (ruleWith (.array [chargerEntry])).body (ruleWith (.array paddedEntries)).body := by
  refine ⟨rfl, rfl, .array [chargerEntry], .array paddedEntries, rfl, rfl, .listed ?_⟩
  refine .insert (.inl rfl) (.keep rfl (.insert (.inr (.inl rfl)) (.insert (.inr (.inr rfl)) ?_)))
  exact .insert (.inr (.inr rfl)) .nil

private theorem padded_fields :
    RuleBody.Padded (ruleWith (.object storedFields)).body (ruleWith (.object paddedFields)).body := by
  refine ⟨rfl, rfl, .object storedFields, .object paddedFields, rfl, rfl, .byField ?_⟩
  refine .insert rfl (.keep (.options ?_) (.keep (.options ?_) .nil))
  · exact .keep rfl (.insert ⟨by decide, rfl⟩ .nil)
  · exact .insert ⟨by decide, rfl⟩ (.keep rfl .nil)

/-- A list of one adjustment among four entries that make no sense, and two fields beside a third one, have the prices
that they have alone. -/
theorem prelimPrice_eq_of_padded_mixed :
    (Quote.ofRule (ruleWith (.array paddedEntries)) [("charger", .bool true)]).map Quote.prelimPrice = .ok 480 ∧
      (Quote.ofRule (ruleWith (.object paddedFields)) [("screen", .string "good"), ("storage", .ofInt64 128)]).map
        Quote.prelimPrice = .ok 648 := by
  constructor
  · refine (prelimPrice_eq_of_padded _ padded_entries _).trans ?_
    decide +kernel
  · refine (prelimPrice_eq_of_padded _ padded_fields _).trans ?_
    decide +kernel

end Quote

end TradeIn
