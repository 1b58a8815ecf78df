import Mathlib.Algebra.Order.BigOperators.Group.List
import TradeIn.Proofs.Number.Exact
import TradeIn.Proofs.Price.Floor

/-!
# The price as a sum

The price is computed step by step with decimals of limited size. Where all amounts are multiples of one power of ten,
and their magnitudes together have room in 96 bits, every step is exact, and the price is that of the exact sum of its
amounts. The order of the adjustments does not matter then.
-/

namespace TradeIn

namespace PriceModel

open Decimal

variable {model : PriceModel} {answers : Answers} {places : Nat} {price amount : Decimal}

/-- The whole units of a total: raised to the least price, rounded with a half going away from zero, and held between
zero and the largest signed 64-bit integer. -/
def wholeUnits (total least : ℚ) : ℤ := max 0 (min (2 ^ 63 - 1) (halfAway (max total least)))

/-- A price is the whole units of its total. -/
theorem toInt_price_eq_wholeUnits (model : PriceModel) (answers : Answers) :
    (model.price answers).toInt = wholeUnits (model.total answers).value (ofAmount model.minPrice).value := by
  rw [toInt_price, wholeUnits, halfAway_mono.map_max]

/-- The deltas of the adjustments whose condition holds. -/
def deltas (model : PriceModel) (answers : Answers) : List Decimal :=
  (model.adjustments.filter fun adjustment => adjustment.condition.holds answers).map fun adjustment =>
    ofAmount adjustment.delta

/-- The exact product of an amount per unit and the numeric answer to its question. -/
def unitProduct (answers : Answers) (member : String × Binary64) : ℚ :=
  (ofAmount member.2).value * (numericAnswer (Members.get? answers member.1)).value

/-- The amounts that make up the price: the base price, the deltas of the adjustments whose condition holds, and the
products of the amounts per unit. -/
def amounts (model : PriceModel) (answers : Answers) : List ℚ :=
  (ofAmount model.basePrice).value :: (model.deltas answers).map value ++ model.perUnit.map (unitProduct answers)

/-- An amount is added exactly where the sum fits. -/
theorem value_addAmount (hplaces : places ≤ 28) (hfits : FitsIn places (price.value + amount.value)) :
    (addAmount price amount).value = price.value + amount.value := by
  obtain ⟨sum, hsum, hvalue⟩ := exists_add?_eq_some hplaces hfits
  rw [addAmount, hsum, Option.getD_some, hvalue]

/-- Amounts are added exactly one after the other where their magnitudes together have room. -/
theorem value_foldl_addAmount {terms : List Decimal} (hplaces : places ≤ 28) (hprice : IsMultiple places price.value)
    (hterms : ∀ term ∈ terms, IsMultiple places term.value)
    (hroom : (|price.value| + (terms.map fun term => |term.value|).sum) * 10 ^ places < 2 ^ 96) :
    (terms.foldl addAmount price).value = price.value + (terms.map value).sum := by
  induction terms generalizing price with
  | nil => simp
  | cons term terms ih =>
    obtain ⟨hterm, hrest⟩ := List.forall_mem_cons.1 hterms
    have hpow : (0 : ℚ) < 10 ^ places := by positivity
    have hnonneg : 0 ≤ (terms.map fun term => |term.value|).sum := List.sum_nonneg (by simp)
    have htriangle : |price.value + term.value| ≤ |price.value| + |term.value| := abs_add_le _ _
    rw [List.map_cons, List.sum_cons] at hroom
    -- The magnitude of a partial sum takes no more room than the magnitudes of its terms.
    have hpartial : (|price.value + term.value| + (terms.map fun term => |term.value|).sum) * 10 ^ places < 2 ^ 96 := by
      refine lt_of_le_of_lt (mul_le_mul_of_nonneg_right ?_ hpow.le) hroom
      linarith
    have hfits : FitsIn places (price.value + term.value) := by
      refine ⟨hprice.add hterm, lt_of_le_of_lt (mul_le_mul_of_nonneg_right ?_ hpow.le) hpartial⟩
      linarith
    have hnext := value_addAmount hplaces hfits
    rw [List.foldl_cons, ih (hnext ▸ hfits.1) hrest (hnext ▸ hpartial), hnext, List.map_cons, List.sum_cons, add_assoc]

/-- No term of an amount per unit is left out or rounded where its product fits. -/
theorem map_value_unitTerms {perUnit : Members Binary64} (hplaces : places ≤ 28)
    (hfits : ∀ member ∈ perUnit, FitsIn places (unitProduct answers member)) :
    (perUnit.filterMap fun member => unitTerm? answers member.1 member.2).map value =
      perUnit.map (unitProduct answers) := by
  induction perUnit with
  | nil => rfl
  | cons member perUnit ih =>
    obtain ⟨hmember, hrest⟩ := List.forall_mem_cons.1 hfits
    obtain ⟨term, hterm, hvalue⟩ : ∃ term, unitTerm? answers member.1 member.2 = some term ∧
        term.value = unitProduct answers member := exists_mul?_eq_some hplaces hmember
    simp only [List.filterMap_cons, hterm, List.map_cons, hvalue, ih hrest]

/-- The total is taken by adding the deltas and then the terms of the amounts per unit. -/
theorem total_eq_foldl (model : PriceModel) (answers : Answers) :
    model.total answers =
      (model.deltas answers ++
          model.perUnit.filterMap fun member => unitTerm? answers member.1 member.2).foldl addAmount
        (ofAmount model.basePrice) := by
  rw [total, adjusted, deltas, List.foldl_append, List.foldl_map]

/-- The total of amounts that have room together is their exact sum. -/
theorem value_total (hplaces : places ≤ 28) (hmultiple : ∀ v ∈ model.amounts answers, IsMultiple places v)
    (hroom : ((model.amounts answers).map fun v => |v|).sum * 10 ^ places < 2 ^ 96) :
    (model.total answers).value = (model.amounts answers).sum := by
  have hfits : ∀ v ∈ model.amounts answers, FitsIn places v := by
    intro v hv
    refine ⟨hmultiple v hv, lt_of_le_of_lt (mul_le_mul_of_nonneg_right ?_ (by positivity)) hroom⟩
    exact List.single_le_sum (by simp) _ (List.mem_map_of_mem hv)
  have hunits : ∀ member ∈ model.perUnit, FitsIn places (unitProduct answers member) := fun member hmember =>
    hfits _ (List.mem_append_right _ (List.mem_map_of_mem hmember))
  have hterms := map_value_unitTerms hplaces hunits
  generalize hlist : (model.perUnit.filterMap fun member => unitTerm? answers member.1 member.2) = terms at hterms
  have hvalues : model.amounts answers =
      (ofAmount model.basePrice).value :: (model.deltas answers ++ terms).map value := by
    rw [amounts, List.map_append, hterms, List.cons_append]
  rw [hvalues, List.map_cons, List.sum_cons, List.map_map] at hroom
  rw [hvalues] at hmultiple
  obtain ⟨hbase, hrest⟩ := List.forall_mem_cons.1 hmultiple
  rw [total_eq_foldl, hlist, value_foldl_addAmount hplaces hbase (List.forall_mem_map.1 hrest) hroom, hvalues,
    List.sum_cons]

/-- Rearranged adjustments make up the price from the same amounts. -/
theorem amounts_perm {adjustments : List Adjustment} (h : adjustments.Perm model.adjustments) :
    (PriceModel.amounts { model with adjustments } answers).Perm (model.amounts answers) := by
  have hdeltas := ((h.filter fun adjustment => adjustment.condition.holds answers).map fun adjustment =>
    ofAmount adjustment.delta).map value
  exact (hdeltas.cons _).append_right _

/-- The price of amounts that have room together is that of their exact sum. -/
theorem toInt_price_eq_wholeUnits_sum (hplaces : places ≤ 28)
    (hmultiple : ∀ v ∈ model.amounts answers, IsMultiple places v)
    (hroom : ((model.amounts answers).map fun v => |v|).sum * 10 ^ places < 2 ^ 96) :
    (model.price answers).toInt = wholeUnits (model.amounts answers).sum (ofAmount model.minPrice).value := by
  rw [toInt_price_eq_wholeUnits, value_total hplaces hmultiple hroom]

/-- Models of the same amounts in any order, and of the same least price, have the same price where the amounts have
room together. -/
theorem price_eq_of_perm {other : PriceModel} (hplaces : places ≤ 28)
    (hmultiple : ∀ v ∈ model.amounts answers, IsMultiple places v)
    (hroom : ((model.amounts answers).map fun v => |v|).sum * 10 ^ places < 2 ^ 96)
    (hamounts : (other.amounts answers).Perm (model.amounts answers)) (hleast : other.minPrice = model.minPrice) :
    other.price answers = model.price answers := by
  apply Int64.toInt_inj.1
  rw [toInt_price_eq_wholeUnits_sum hplaces hmultiple hroom, toInt_price_eq_wholeUnits_sum hplaces, hamounts.sum_eq,
    hleast]
  · exact fun v hv => hmultiple v (hamounts.mem_iff.1 hv)
  · rwa [(hamounts.map _).sum_eq]

end PriceModel

namespace Quote

open Decimal PriceModel

variable {model : PriceModel} {answers : Answers} {version : Int64} {places : Nat}

/-- Where all amounts are multiples of one power of ten and their magnitudes together have room in 96 bits, no amount is
left out or rounded: the price is that of their exact sum, in whatever order the adjustments stand. -/
theorem prelimPrice_eq_wholeUnits_sum (hplaces : places ≤ 28)
    (hmultiple : ∀ v ∈ model.amounts answers, IsMultiple places v)
    (hroom : ((model.amounts answers).map fun v => |v|).sum * 10 ^ places < 2 ^ 96) :
    (Quote.ofModel model version answers).prelimPrice.toInt =
        wholeUnits (model.amounts answers).sum (ofAmount model.minPrice).value ∧
      (model.total answers).value = (model.amounts answers).sum ∧
      ∀ adjustments : List Adjustment, adjustments.Perm model.adjustments →
        (Quote.ofModel { model with adjustments } version answers).prelimPrice =
          (Quote.ofModel model version answers).prelimPrice := by
  refine ⟨toInt_price_eq_wholeUnits_sum hplaces hmultiple hroom, value_total hplaces hmultiple hroom, ?_⟩
  intro adjustments hadjustments
  exact price_eq_of_perm hplaces hmultiple hroom (amounts_perm hadjustments) rfl

/-- A model with amounts of different places. -/
private def mixedModel : PriceModel where
  basePrice := .ofRatio false 201 2
  minPrice := .finite .zero
  adjustments :=
    [⟨.answer "charger", .ofRatio true 3 4⟩,
      ⟨.answer "box", .ofRatio false 7 1⟩,
      ⟨.answerEquals "screen" (.string "good"), .ofRatio false 20 1⟩]
  perUnit := [("storage", .ofRatio false 1 4)]

/-- Answers to which two of the three conditions hold. -/
private def mixedAnswers : Answers :=
  [("charger", .bool true), ("screen", .string "good"), ("storage", .string " 128 ")]

private theorem amounts_mixed : mixedModel.amounts mixedAnswers = [201 / 2, -3 / 4, 20, 32] := by
  have hbase : ofAmount (.ofRatio false 201 2) = ⟨false, 1005, 1, by decide, by decide⟩ := by decide +kernel
  have hcharger : ofAmount (.ofRatio true 3 4) = ⟨true, 75, 2, by decide, by decide⟩ := by decide +kernel
  have hscreen : ofAmount (.ofRatio false 20 1) = ⟨false, 20, 0, by decide, by decide⟩ := by decide +kernel
  have hunit : ofAmount (.ofRatio false 1 4) = ⟨false, 25, 2, by decide, by decide⟩ := by decide +kernel
  have hnumber : numericAnswer (some (.string " 128 ")) = ⟨false, 128, 0, by decide, by decide⟩ := by decide +kernel
  have hholds : mixedModel.adjustments.filter (fun adjustment => adjustment.condition.holds mixedAnswers) =
      [⟨.answer "charger", .ofRatio true 3 4⟩, ⟨.answerEquals "screen" (.string "good"), .ofRatio false 20 1⟩] := by
    decide +kernel
  have hstorage : Members.get? mixedAnswers "storage" = some (.string " 128 ") := by decide +kernel
  rw [amounts, deltas, hholds]
  simp only [mixedModel, List.map_cons, List.map_nil, unitProduct, hstorage, hbase, hcharger, hscreen, hunit, hnumber]
  norm_num [value, signed]

/-- The price of amounts of different places, two places in all, is that of their sum 151.75. -/
theorem prelimPrice_eq_wholeUnits_sum_mixed :
    (∀ v ∈ mixedModel.amounts mixedAnswers, IsMultiple 2 v) ∧
      ((mixedModel.amounts mixedAnswers).map fun v => |v|).sum * 10 ^ 2 < 2 ^ 96 ∧
      (Quote.ofModel mixedModel 1 mixedAnswers).prelimPrice.toInt = 152 ∧
      (Quote.ofModel { mixedModel with adjustments := mixedModel.adjustments.reverse } 1 mixedAnswers).prelimPrice =
        (Quote.ofModel mixedModel 1 mixedAnswers).prelimPrice := by
  have hmultiple : ∀ v ∈ mixedModel.amounts mixedAnswers, IsMultiple 2 v := by
    rw [amounts_mixed]
    simp only [List.forall_mem_cons]
    exact ⟨⟨10050, by norm_num⟩, ⟨-75, by norm_num⟩, ⟨2000, by norm_num⟩, ⟨3200, by norm_num⟩, by simp⟩
  have hroom : ((mixedModel.amounts mixedAnswers).map fun v => |v|).sum * 10 ^ 2 < 2 ^ 96 := by
    rw [amounts_mixed]
    norm_num [abs_div]
  obtain ⟨hprice, -, hperm⟩ :=
    @prelimPrice_eq_wholeUnits_sum mixedModel mixedAnswers 1 2 (by decide) hmultiple hroom
  have hleast : (ofAmount mixedModel.minPrice).value = 0 := value_eq_zero_of_isZero (by decide +kernel)
  refine ⟨hmultiple, hroom, ?_, hperm _ (List.reverse_perm _)⟩
  rw [hprice, amounts_mixed, hleast]
  norm_num [wholeUnits, halfAway]

end Quote

end TradeIn
