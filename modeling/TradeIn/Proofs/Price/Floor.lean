import TradeIn.Proofs.Number.Value
import TradeIn.Proofs.Quote.Computed

/-!
# The least price

The price is raised to the least price before it is rounded to whole units. A least price that is whole is therefore
always kept. One that is not whole is kept exactly when it is not rounded down itself, or when the amounts reach the
whole unit above it: the price in whole units may lie below it otherwise.
-/

namespace TradeIn

namespace PriceModel

/-- A price in terms of values: the greater of the total and the least price, rounded to whole units and held between
zero and the largest signed 64-bit integer. -/
theorem toInt_price (model : PriceModel) (answers : Answers) :
    (model.price answers).toInt = max 0 (min (2 ^ 63 - 1)
      (max (halfAway (model.total answers).value) (halfAway (Decimal.ofAmount model.minPrice).value))) := by
  have hzero : (0 : Int64).toInt = 0 := rfl
  have hunits := Decimal.toInt_toWholeUnits ((model.total answers).max (.ofAmount model.minPrice))
  rw [Decimal.value_max, halfAway_mono.map_max] at hunits
  simp only [price, Int64.lt_iff_toInt_lt, hzero]
  split
  · rw [hzero]
    omega
  · omega

end PriceModel

namespace Quote

variable {answers : Answers} {quote : Quote} {least : Finite64}

/-- Exactly the least prices that are rounded down themselves are not kept, and only while the amounts do not reach the
whole unit above. A least price that is whole is always kept. -/
theorem minPrice_le_prelimPrice_iff (h : quote.IsComputed answers)
    (hleast : quote.ruleSnapshot.minPrice = .finite least) (hnonneg : 0 ≤ least.value) :
    (least.value ≤ quote.prelimPrice.toInt ↔
      least.value ≤ halfAway (Decimal.ofAmount (.finite least)).value ∨
        least.value ≤ halfAway (quote.ruleSnapshot.total answers).value) ∧
      ((∃ n : ℤ, least.value = n) → least.value ≤ quote.prelimPrice.toInt) := by
  obtain ⟨hprice, hfits⟩ := h.eq_price
  rw [hleast] at hfits
  obtain ⟨hbound, d, hd⟩ : least.belowTwoPow63 = true ∧ ∃ d, Decimal.ofFinite64? least = some d := by
    simpa [Binary64.isRepresentable, Binary64.finite?, Finite64.isRepresentable, Option.isSome_iff_exists] using hfits
  have hamount : Decimal.ofAmount (.finite least) = d := by
    simp [Decimal.ofAmount, Decimal.ofBinary64?, Binary64.finite?, hd]
  have hmax := Finite64.value_le_of_belowTwoPow63 hbound
  norm_num at hmax
  have hwhole : ∀ n : ℤ, least.value = n → least.value ≤ halfAway d.value := by
    intro n hn
    rw [Decimal.value_of_ofFinite64? hd hn, hn, halfAway_intCast]
  have hiff : least.value ≤ quote.prelimPrice.toInt ↔
      least.value ≤ halfAway d.value ∨ least.value ≤ halfAway (quote.ruleSnapshot.total answers).value := by
    rw [hprice, PriceModel.toInt_price, hleast, hamount]
    push_cast
    rw [le_max_iff, le_min_iff, le_max_iff]
    constructor
    · rintro (hle | ⟨_, hle | hle⟩)
      · exact .inl (hwhole 0 (by push_cast; exact le_antisymm hle hnonneg))
      · exact .inr hle
      · exact .inl hle
    · rintro (hle | hle)
      · exact .inr ⟨hmax, .inr hle⟩
      · exact .inr ⟨hmax, .inl hle⟩
  rw [hamount]
  exact ⟨hiff, fun ⟨n, hn⟩ => hiff.2 (.inl (hwhole n hn))⟩

/-- The number ten and a quarter. -/
private def tenAndQuarter : Finite64 := ⟨false, ⟨1026 * 2 ^ 52 + 9 * 2 ^ 47, by decide⟩⟩

private theorem value_tenAndQuarter : tenAndQuarter.value = 41 / 4 := by
  have hsignificand : tenAndQuarter.significand = 41 * 2 ^ 47 := by decide
  have hexponent : tenAndQuarter.exponent = -49 := by decide
  rw [Finite64.value, hsignificand, hexponent]
  norm_num [tenAndQuarter]

/-- A rule without amounts whose least price is ten and a quarter. -/
private def quarterRule : Rule where
  id := 1
  typeAlias := "PHONE"
  kind := Rule.pricingKind
  version := 1
  isActive := true
  body := .object [("basePrice", .number (.integer 0 (by decide))), ("minPrice", .number (.binary tenAndQuarter))]
  createdAt := 0
  revision := 1

/-- The condition for a least price of ten and a quarter. -/
theorem minPrice_le_prelimPrice_iff_quarter : ∃ quote,
    Quote.ofRule quarterRule [] = .ok quote ∧ 0 ≤ tenAndQuarter.value ∧
      (tenAndQuarter.value ≤ quote.prelimPrice.toInt ↔
        tenAndQuarter.value ≤ halfAway (Decimal.ofAmount (.finite tenAndQuarter)).value ∨
          tenAndQuarter.value ≤ halfAway (quote.ruleSnapshot.total []).value) := by
  have hnonneg : 0 ≤ tenAndQuarter.value := by norm_num [value_tenAndQuarter]
  have hquote : Quote.ofRule quarterRule [] = .ok _ := rfl
  exact ⟨_, hquote, hnonneg, (minPrice_le_prelimPrice_iff (.ofRule hquote) rfl hnonneg).1⟩

/-- The price of a rule whose least price is ten and a quarter, and whose amounts stay below, is less than that. -/
theorem prelimPrice_lt_minPrice : ∃ rule answers quote least,
    Quote.ofRule rule answers = .ok quote ∧ quote.ruleSnapshot.minPrice = .finite least ∧ 0 ≤ least.value ∧
      ¬ least.value ≤ quote.prelimPrice.toInt := by
  have hunits : ((RuleBody.ofJson quarterRule.body).model.price []).toInt = 10 := by decide
  refine ⟨quarterRule, [], _, tenAndQuarter, rfl, rfl, ?_, ?_⟩
  · norm_num [value_tenAndQuarter]
  · rw [value_tenAndQuarter]
    change ¬ (41 / 4 : ℚ) ≤ ((RuleBody.ofJson quarterRule.body).model.price []).toInt
    rw [hunits]
    norm_num

end Quote

end TradeIn
