import TradeIn.Proofs.Price.Record
import TradeIn.Proofs.Price.Sum

/-!
# Adjustments by field, read directly

A body that gives its adjustments by field can be priced without a price model: look up the one option that each answer
selects, then multiply out the amounts per unit. The price model turns every option into a condition of its own, and
tests them all. Both give the same price, since at most one condition of a field holds, and since the zero delta that
stands for an amount per unit changes nothing but the sign and the places of a zero.
-/

namespace TradeIn

namespace Condition

/-- A question compared with a value holds when its answer, or null if there is none, is that value. -/
theorem holds_answerEquals (answers : Answers) (key : String) (value : Json) :
    (answerEquals key value).holds answers = ((Members.get? answers key).getD .null).deepEqual value := by
  simp [answerEquals, holds, isRecognized, valueAt, maxDepth, Json.isTruthy]

end Condition

namespace Members

variable {α : Type} {members : Members α}

/-- The members with a key are the one that looking up the key finds. -/
theorem filter_key (h : Sorted members) (key : String) :
    members.filter (fun member => key = member.1) = ((get? members key).map fun value => (key, value)).toList := by
  induction members with
  | nil => rfl
  | cons member rest ih =>
    obtain ⟨k, value⟩ := member
    simp only [Sorted, List.map_cons, List.pairwise_cons] at h
    rw [List.filter_cons, get?_cons, ih h.2]
    by_cases hkey : key = k
    · subst hkey
      have hnone : get? rest key = none := get?_eq_none_of_lt h.1
      simp [hnone]
    · simp [hkey]

end Members

namespace FieldReading

open Decimal PriceModel RuleBody

variable {answers : Answers} {body : Json} {field : String × Json} {x y amount : Decimal}

/-- The fields of a body with their definitions; none unless the adjustments are an object. -/
def fields (body : Json) : List (String × Json) :=
  match body.get? "adjustments" with
  | some (.object fields) => fields
  | _ => []

/-- The amount of a number in a body, zero if it cannot be used. -/
def amountOf (body : Json) (key : String) : Decimal :=
  ofAmount (.finite (((body.get? key).bind Json.finite?).getD .zero))

/-- The option that an answer selects: a text selects the option it spells, except for the texts `true` and `false`,
and a boolean selects the option with its name. No other answer selects an option. -/
def selectedOption? : Option Json → Option String
  | some (.string option) => if option = "true" ∨ option = "false" then none else some option
  | some (.bool value) => some (if value then "true" else "false")
  | _ => none

/-- The delta of the option that an answer selects, if it is a number. -/
def selectedDelta? (definition : Json) (answer : Option Json) : Option Decimal := do
  let option ← selectedOption? answer
  return ofAmount (.finite (← (← definition.get? option).finite?))

/-- The price with the delta of the selected option of a field added, unless the field has an amount per unit. -/
def addSelected (answers : Answers) (price : Decimal) (field : String × Json) : Decimal :=
  match fieldPerUnit? field.2, selectedDelta? field.2 (Members.get? answers field.1) with
  | none, some delta => addAmount price delta
  | _, _ => price

/-- The price with the amount per unit of a field times its numeric answer added, if the field has one. -/
def addUnits (answers : Answers) (price : Decimal) (field : String × Json) : Decimal :=
  match (fieldPerUnit? field.2).bind fun amount => unitTerm? answers field.1 (.finite amount) with
  | some term => addAmount price term
  | none => price

/-- The base price of a body with first the selected deltas and then the amounts per unit added, field by field. -/
def total (body : Json) (answers : Answers) : Decimal :=
  (fields body).foldl (addUnits answers) ((fields body).foldl (addSelected answers) (amountOf body "basePrice"))

/-- The price of a body in whole units. -/
def price (body : Json) (answers : Answers) : ℤ :=
  wholeUnits (total body answers).value (amountOf body "minPrice").value

/-- An answer equals what stands for an option exactly when it selects the option. -/
theorem deepEqual_optionAnswer_iff (answer : Option Json) (option : String) :
    (answer.getD .null).deepEqual (optionAnswer option) = true ↔ selectedOption? answer = some option := by
  unfold optionAnswer
  cases answer with
  | none => split_ifs <;> simp [Json.deepEqual, selectedOption?]
  | some value =>
    cases value with
    | bool b => cases b <;> split_ifs <;> simp_all [Json.deepEqual, selectedOption?, eq_comm]
    | string s => split_ifs <;> simp_all [Json.deepEqual, selectedOption?]
    | null | number | array | object => split_ifs <;> simp [Json.deepEqual, selectedOption?]

/-- The adjustments of a field whose condition holds. -/
def heldAdjustments (answers : Answers) (field : String × Json) : List Adjustment :=
  (fieldAdjustments field.1 field.2).filter fun adjustment => adjustment.condition.holds answers

/-- The deltas of a field whose condition holds. -/
def heldDeltas (answers : Answers) (field : String × Json) : List Decimal :=
  (heldAdjustments answers field).map fun adjustment => ofAmount adjustment.delta

/-- A field with an amount per unit has at most a delta of zero. -/
theorem heldDeltas_of_perUnit (answers : Answers) {perUnit : Finite64} (h : fieldPerUnit? field.2 = some perUnit) :
    heldDeltas answers field = [] ∨ heldDeltas answers field = [ofAmount (.finite .zero)] := by
  simp only [heldDeltas, heldAdjustments, fieldAdjustments, h, List.filter_cons, List.filter_nil]
  split
  · exact .inr rfl
  · exact .inl rfl

/-- A field without an amount per unit has the delta of the selected option alone. -/
theorem heldDeltas_of_options (hdefinition : field.2.WellFormed) (h : fieldPerUnit? field.2 = none) :
    heldDeltas answers field = (selectedDelta? field.2 (Members.get? answers field.1)).toList := by
  obtain ⟨name, definition⟩ := field
  cases definition with
  | object options =>
    simp only [Json.WellFormed] at hdefinition
    -- An option contributes its delta where the answer selects it, so the selected option is filtered out.
    have hheld : heldDeltas answers (name, .object options) =
        (options.filter fun option =>
          selectedOption? (Members.get? answers name) = some option.1).filterMap fun option =>
            option.2.finite?.map fun delta => ofAmount (.finite delta) := by
      simp only [heldDeltas, heldAdjustments, fieldAdjustments, h, List.filter_filterMap, List.map_filterMap,
        List.filterMap_filter]
      refine List.filterMap_congr fun option _ => ?_
      have hiff := deepEqual_optionAnswer_iff (Members.get? answers name) option.1
      cases option.2.finite? <;> simp [Option.filter, Condition.holds_answerEquals, hiff]
    rw [hheld]
    cases hselected : selectedOption? (Members.get? answers name) with
    | none => simp [selectedDelta?, hselected]
    | some selected =>
      have hfilter := Members.filter_key hdefinition.1 selected
      simp only [Option.some.injEq, hfilter, selectedDelta?, hselected, Json.get?]
      cases hvalue : Members.get? options selected with
      | none => simp [hvalue]
      | some value => cases hdelta : value.finite? <;> simp [hvalue, hdelta]
  | null | bool | number | string | array =>
    simp [heldDeltas, heldAdjustments, fieldAdjustments, h, selectedDelta?, Json.get?]

/-- No answer selects two options of a field. -/
theorem length_heldAdjustments_le (hdefinition : field.2.WellFormed) : (heldAdjustments answers field).length ≤ 1 := by
  have hlength : (heldAdjustments answers field).length = (heldDeltas answers field).length := by
    rw [heldDeltas, List.length_map]
  rw [hlength]
  cases hunit : fieldPerUnit? field.2 with
  | none =>
    rw [heldDeltas_of_options hdefinition hunit]
    exact Option.length_toList_le
  | some perUnit => rcases heldDeltas_of_perUnit answers hunit with h | h <;> simp [h]

/-- Two decimals are the same but for the sign and the places of a zero. -/
def SameAmount (x y : Decimal) : Prop := x = y ∨ x.isZero ∧ y.isZero

/-- They have the same value. -/
theorem SameAmount.value_eq (h : SameAmount x y) : x.value = y.value := by
  rcases h with rfl | ⟨hx, hy⟩
  · rfl
  · rw [value_eq_zero_of_isZero hx, value_eq_zero_of_isZero hy]

/-- With an amount added they are the same. -/
theorem SameAmount.addAmount (h : SameAmount x y) (amount : Decimal) :
    SameAmount (addAmount x amount) (addAmount y amount) := by
  rcases h with rfl | ⟨hx, hy⟩
  · exact .inl rfl
  · exact .inl (by simp [PriceModel.addAmount, add?, hx, hy])

/-- Adding zero leaves them the same. -/
theorem SameAmount.addAmount_zero (h : SameAmount x y) (hamount : amount.isZero) :
    SameAmount (PriceModel.addAmount x amount) y := by
  by_cases hx : x.isZero
  · have hsum : PriceModel.addAmount x amount = amount := by simp [PriceModel.addAmount, add?, hx]
    rw [hsum]
    rcases h with rfl | ⟨-, hy⟩
    · exact .inr ⟨hamount, hx⟩
    · exact .inr ⟨hamount, hy⟩
  · have hsum : PriceModel.addAmount x amount = x := by simp [PriceModel.addAmount, add?, hx, hamount]
    rwa [hsum]

/-- Adding the deltas of a field whose condition holds is adding that of the selected option. -/
theorem SameAmount.foldl_heldDeltas (h : SameAmount x y) (hdefinition : field.2.WellFormed) :
    SameAmount ((heldDeltas answers field).foldl PriceModel.addAmount x) (addSelected answers y field) := by
  cases hunit : fieldPerUnit? field.2 with
  | some perUnit =>
    simp only [addSelected, hunit]
    rcases heldDeltas_of_perUnit answers hunit with hdeltas | hdeltas
    · simpa [hdeltas] using h
    · rw [hdeltas]
      exact h.addAmount_zero (by decide +kernel)
  | none =>
    rw [heldDeltas_of_options hdefinition hunit]
    simp only [addSelected, hunit]
    cases selectedDelta? field.2 (Members.get? answers field.1) with
    | none => simpa using h
    | some delta => simpa using h.addAmount delta

/-- So it is over all fields. -/
theorem SameAmount.foldl_flatMap (h : SameAmount x y) {fields : List (String × Json)}
    (hfields : ∀ field ∈ fields, field.2.WellFormed) :
    SameAmount ((fields.flatMap (heldDeltas answers)).foldl PriceModel.addAmount x)
      (fields.foldl (addSelected answers) y) := by
  induction fields generalizing x y with
  | nil => exact h
  | cons field fields ih =>
    obtain ⟨hfirst, hrest⟩ := List.forall_mem_cons.1 hfields
    rw [List.flatMap_cons, List.foldl_append, List.foldl_cons]
    exact ih (h.foldl_heldDeltas hfirst) hrest

/-- The terms of the amounts per unit are added field by field. -/
theorem foldl_unitTerms (answers : Answers) (fields : List (String × Json)) (x : Decimal) :
    (fields.filterMap fun field =>
      (fieldPerUnit? field.2).bind fun amount => unitTerm? answers field.1 (.finite amount)).foldl addAmount x =
      fields.foldl (addUnits answers) x := by
  rw [List.foldl_filterMap]
  refine List.foldl_ext _ _ _ fun price field _ => ?_
  unfold addUnits
  cases (fieldPerUnit? field.2).bind fun amount => unitTerm? answers field.1 (.finite amount) <;> rfl

/-- Adding amounts per unit keeps them the same. -/
theorem SameAmount.foldl_addUnits (h : SameAmount x y) (answers : Answers) (fields : List (String × Json)) :
    SameAmount (fields.foldl (addUnits answers) x) (fields.foldl (addUnits answers) y) := by
  induction fields generalizing x y with
  | nil => exact h
  | cons field fields ih =>
    refine ih ?_
    unfold addUnits
    split
    · exact h.addAmount _
    · exact h

/-- The parts of a body whose adjustments are no array. -/
theorem adjustments_ofJson (h : ∀ entries, body.get? "adjustments" ≠ some (.array entries)) :
    (RuleBody.ofJson body).adjustments = .byField (fields body) := by
  unfold RuleBody.ofJson fields
  cases hadjustments : body.get? "adjustments" with
  | none => rfl
  | some adjustments =>
    cases adjustments with
    | array entries => exact absurd hadjustments (h entries)
    | object | null | bool | number | string => rfl

/-- The definitions of the fields of a well formed body are well formed. -/
theorem wellFormed_of_mem_fields (hbody : body.WellFormed) (h : field ∈ fields body) : field.2.WellFormed := by
  unfold fields at h
  split at h
  · next hfields =>
    have hobject := hbody.get? hfields
    simp only [Json.WellFormed] at hobject
    exact Json.membersWellFormed_iff.1 hobject.2 _ h
  · cases h

/-- The total of the price model is the total that is read directly. -/
theorem sameAmount_total (hbody : body.WellFormed) (h : ∀ entries, body.get? "adjustments" ≠ some (.array entries)) :
    SameAmount ((RuleBody.ofJson body).model.total answers) (total body answers) := by
  have hadjustments := adjustments_ofJson h
  have hbase : (RuleBody.ofJson body).model.basePrice =
      .finite (((body.get? "basePrice").bind Json.finite?).getD .zero) := rfl
  have hdeltas : (RuleBody.ofJson body).model.deltas answers = (fields body).flatMap (heldDeltas answers) := by
    simp only [deltas, model, hadjustments, List.filter_flatMap, List.map_flatMap]
    rfl
  have hunits : ((RuleBody.ofJson body).model.perUnit.filterMap fun member => unitTerm? answers member.1 member.2) =
      (fields body).filterMap fun field =>
        (fieldPerUnit? field.2).bind fun amount => unitTerm? answers field.1 (.finite amount) := by
    simp only [model, hadjustments, List.filterMap_filterMap]
    refine List.filterMap_congr fun field _ => ?_
    cases fieldPerUnit? field.2 <;> rfl
  rw [total_eq_foldl, hdeltas, hunits, hbase, List.foldl_append, foldl_unitTerms]
  have hselected : SameAmount
      (((fields body).flatMap (heldDeltas answers)).foldl PriceModel.addAmount (amountOf body "basePrice"))
      ((fields body).foldl (addSelected answers) (amountOf body "basePrice")) :=
    SameAmount.foldl_flatMap (.inl rfl) fun field hfield => wellFormed_of_mem_fields hbody hfield
  exact hselected.foldl_addUnits answers (fields body)

/-- The price of the price model is the price that is read directly. -/
theorem toInt_price_model (hbody : body.WellFormed) (h : ∀ entries, body.get? "adjustments" ≠ some (.array entries))
    (answers : Answers) : ((RuleBody.ofJson body).model.price answers).toInt = price body answers := by
  rw [toInt_price_eq_wholeUnits, (sameAmount_total hbody h).value_eq]
  rfl

end FieldReading

namespace Quote

/-- A body that does not list its adjustments is priced as it reads: by the one option that each answer selects, and by
the amounts per unit. No answer selects two options of a field, whatever the options are. -/
theorem prelimPrice_eq_fieldReading {body : Json} (hbody : body.WellFormed)
    (hlisted : ∀ entries, body.get? "adjustments" ≠ some (.array entries)) (version : Int64) (answers : Answers) :
    (Quote.ofModel (RuleBody.ofJson body).model version answers).prelimPrice.toInt = FieldReading.price body answers ∧
      ∀ field ∈ FieldReading.fields body,
        ((RuleBody.fieldAdjustments field.1 field.2).filter fun adjustment =>
          adjustment.condition.holds answers).length ≤ 1 :=
  ⟨FieldReading.toInt_price_model hbody hlisted answers, fun _ hfield =>
    FieldReading.length_heldAdjustments_le (FieldReading.wellFormed_of_mem_fields hbody hfield)⟩

/-- A body with options for texts and booleans, and with an amount per unit. -/
private def phoneBody : Json :=
  .object
    [("adjustments", .object
        [("cargador", .object [("false", .ofInt64 (-5)), ("maybe", .ofInt64 1), ("true", .ofInt64 10)]),
          ("gigabytes", .object [("perUnit", .ofInt64 2)]),
          ("pantalla", .object [("intacta", .ofInt64 0), ("quebrada", .ofInt64 (-150))])]),
      ("basePrice", .ofInt64 500)]

/-- Answers that select an option of each kind. -/
private def phoneAnswers : Answers :=
  [("cargador", .bool true), ("gigabytes", .ofInt64 128), ("pantalla", .string "quebrada")]

private theorem wellFormed_phoneBody : phoneBody.WellFormed := by
  simp only [phoneBody, Json.ofInt64, Json.WellFormed, Json.MembersWellFormed, Members.Sorted]
  decide +kernel

private theorem fieldReading_phoneBody : FieldReading.price phoneBody phoneAnswers = 616 := by
  have htotal : FieldReading.total phoneBody phoneAnswers = ⟨false, 616, 0, by decide, by decide⟩ := by decide +kernel
  have hleast : (FieldReading.amountOf phoneBody "minPrice").value = 0 :=
    Decimal.value_eq_zero_of_isZero (by decide +kernel)
  rw [FieldReading.price, htotal, hleast]
  norm_num [PriceModel.wholeUnits, halfAway, Decimal.value, Decimal.signed]

/-- The base price of 500 gains 10 and loses 150 with the selected options, and gains 2 for each of 128 units. -/
theorem prelimPrice_eq_fieldReading_phone :
    phoneBody.WellFormed ∧ (∀ entries, phoneBody.get? "adjustments" ≠ some (.array entries)) ∧
      (Quote.ofModel (RuleBody.ofJson phoneBody).model 1 phoneAnswers).prelimPrice.toInt = 616 := by
  have hlisted : ∀ entries, phoneBody.get? "adjustments" ≠ some (.array entries) := by
    intro entries h
    cases h
  refine ⟨wellFormed_phoneBody, hlisted, ?_⟩
  rw [(prelimPrice_eq_fieldReading wellFormed_phoneBody hlisted 1 phoneAnswers).1, fieldReading_phoneBody]

end Quote

end TradeIn
