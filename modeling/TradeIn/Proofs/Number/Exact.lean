import TradeIn.Proofs.Number.Value

/-!
# Sums and products that fit

A sum or a product of decimals is exact whenever some decimal has its value: the digits that are dropped are zeros then,
however many of them the operands bring along. A number has a decimal when it is a multiple of `10 ^ (-places)` for at
most 28 places and the multiple has 96 bits (`Decimal.FitsIn`).
-/

namespace TradeIn.Decimal

variable {x y : Decimal} {places : Nat} {v w : ℚ}

/-- The number is a whole multiple of `10 ^ (-places)`. -/
def IsMultiple (places : Nat) (v : ℚ) : Prop := ∃ n : ℤ, v * 10 ^ places = n

/-- The number is a whole multiple of `10 ^ (-places)` of less than 96 bits. -/
def FitsIn (places : Nat) (v : ℚ) : Prop := IsMultiple places v ∧ |v| * 10 ^ places < 2 ^ 96

/-- A sum of two multiples is a multiple. -/
theorem IsMultiple.add (hv : IsMultiple places v) (hw : IsMultiple places w) : IsMultiple places (v + w) := by
  obtain ⟨m, hm⟩ := hv
  obtain ⟨n, hn⟩ := hw
  exact ⟨m + n, by rw [add_mul, hm, hn, Int.cast_add]⟩

/-- A quotient of either sign that fits has a coefficient below `2 ^ 96` with that many places. -/
theorem FitsIn.exists_coefficient {negative : Bool} {coefficient scale : Nat} (h : FitsIn places v)
    (hv : v = (if negative then -1 else 1) * ((coefficient : ℚ) / 10 ^ scale)) :
    ∃ n : Nat, coefficient * 10 ^ places = n * 10 ^ scale ∧ n < 2 ^ 96 := by
  obtain ⟨⟨n, hn⟩, hlt⟩ := h
  have habs : |v| = (coefficient : ℚ) / 10 ^ scale := by
    rw [hv, abs_mul, abs_of_nonneg (by positivity : (0 : ℚ) ≤ coefficient / 10 ^ scale)]
    split <;> simp
  have hnat : |v| * 10 ^ places = n.natAbs := by
    rw [Nat.cast_natAbs, Int.cast_abs, ← hn, abs_mul, abs_of_pos (by positivity : (0 : ℚ) < 10 ^ places)]
  refine ⟨n.natAbs, ?_, ?_⟩
  · have hscaled : (coefficient : ℚ) * 10 ^ places = n.natAbs * 10 ^ scale := by
      rw [← hnat, habs]
      field_simp
    exact_mod_cast hscaled
  · rw [hnat] at hlt
    exact_mod_cast hlt

/-- The value of a decimal is that of its coefficient with the sign. -/
theorem value_eq_sign_mul (x : Decimal) :
    x.value = (if x.negative then -1 else 1) * ((x.coefficient : ℚ) / 10 ^ x.scale) := by
  rw [value, signed]
  split <;> push_cast <;> ring

/-- A zero of either sign has the value zero. -/
theorem value_eq_zero_of_isZero (h : x.isZero = true) : x.value = 0 := by
  have hcoefficient : x.coefficient = 0 := by simpa [isZero] using h
  rw [value_eq_sign_mul, hcoefficient]
  simp

/-- Where a quotient has a coefficient with fewer places, only zeros are dropped on the way there. -/
private theorem pow_dvd_of_le_dropped {coefficient scale n dropped : Nat}
    (hvalue : coefficient * 10 ^ places = n * 10 ^ scale) (hdropped : dropped ≤ scale - places) :
    10 ^ dropped ∣ coefficient := by
  rcases Nat.le_total scale places with hle | hle
  · obtain rfl : dropped = 0 := by omega
    exact one_dvd _
  · have hscale : n * 10 ^ scale = n * 10 ^ (scale - places) * 10 ^ places := by
      rw [Nat.mul_assoc, ← Nat.pow_add, Nat.sub_add_cancel hle]
    rw [hscale] at hvalue
    rw [Nat.eq_of_mul_eq_mul_right (Nat.pow_pos (by decide)) hvalue]
    exact (Nat.pow_dvd_pow 10 hdropped).trans (Nat.dvd_mul_left _ n)

/-- Dropping the zeros down to those places brings a quotient into the range. -/
private theorem fits_dropped {coefficient scale n : Nat} (hplaces : places ≤ 28)
    (hvalue : coefficient * 10 ^ places = n * 10 ^ scale) (hn : n < 2 ^ 96) :
    Fits coefficient scale (scale - places) := by
  refine ⟨?_, by omega⟩
  rcases Nat.le_total scale places with hle | hle
  · have hplacesEq : coefficient * 10 ^ places = coefficient * 10 ^ (places - scale) * 10 ^ scale := by
      rw [Nat.mul_assoc, ← Nat.pow_add, Nat.sub_add_cancel hle]
    rw [hplacesEq] at hvalue
    have hle' : coefficient ≤ n := by
      rw [← Nat.eq_of_mul_eq_mul_right (Nat.pow_pos (by decide)) hvalue]
      exact Nat.le_mul_of_pos_right _ (Nat.pow_pos (by decide))
    have hone : divHalfEven coefficient (10 ^ (scale - places)) = coefficient := by
      rw [Nat.sub_eq_zero_of_le hle]
      simpa using divHalfEven_mul_left coefficient 1 Nat.one_pos
    omega
  · have hscale : n * 10 ^ scale = 10 ^ (scale - places) * n * 10 ^ places := by
      rw [Nat.mul_comm _ n, Nat.mul_assoc, ← Nat.pow_add, Nat.sub_add_cancel hle]
    rw [hscale] at hvalue
    rw [Nat.eq_of_mul_eq_mul_right (Nat.pow_pos (by decide)) hvalue, divHalfEven_mul_left _ _ (Nat.pow_pos (by decide))]
    exact hn

/-- A quotient that fits is fitted into the range without a change of value. -/
theorem exists_fit?_eq_some {negative : Bool} {coefficient scale : Nat} (hplaces : places ≤ 28)
    (hfits : FitsIn places v) (hv : v = (if negative then -1 else 1) * ((coefficient : ℚ) / 10 ^ scale)) :
    ∃ d, fit? negative coefficient scale = some d ∧ d.value = v := by
  obtain ⟨n, hvalue, hn⟩ := hfits.exists_coefficient hv
  have hlast := fits_dropped hplaces hvalue hn
  unfold fit?
  split
  · next hnone =>
    have hnot := List.find?_eq_none.1 hnone (scale - places) (List.mem_range.2 (by omega))
    exact absurd (decide_eq_true hlast) hnot
  · next dropped hfirst =>
    refine ⟨_, rfl, ?_⟩
    obtain ⟨-, hmem, hbefore⟩ := List.find?_range_eq_some.1 hfirst
    have hdropped : dropped ≤ scale - places := by
      by_contra hlt
      simpa [hlast] using hbefore (scale - places) (by omega)
    obtain ⟨kept, rfl⟩ := pow_dvd_of_le_dropped hvalue hdropped
    have hscale : (10 : ℚ) ^ scale = 10 ^ dropped * 10 ^ (scale - dropped) := by
      rw [← pow_add, Nat.add_sub_cancel' (by omega)]
    have hkept : divHalfEven (10 ^ dropped * kept) (10 ^ dropped) = kept :=
      divHalfEven_mul_left kept _ (Nat.pow_pos (by decide))
    rw [value_eq_sign_mul, hv, hscale]
    simp only [hkept]
    push_cast
    field_simp

/-- A product that fits is exact. -/
theorem exists_mul?_eq_some (hplaces : places ≤ 28) (hfits : FitsIn places (x.value * y.value)) :
    ∃ z, x.mul? y = some z ∧ z.value = x.value * y.value := by
  unfold mul?
  split
  · next hzero =>
    refine ⟨zero, rfl, ?_⟩
    rw [value_eq_zero_of_isZero (x := zero) rfl]
    rcases Bool.or_eq_true_iff.1 hzero with hx | hy
    · rw [value_eq_zero_of_isZero hx, zero_mul]
    · rw [value_eq_zero_of_isZero hy, mul_zero]
  · refine exists_fit?_eq_some hplaces hfits ?_
    rw [value_eq_sign_mul x, value_eq_sign_mul y, pow_add, Nat.cast_mul, ← div_mul_div_comm]
    cases x.negative <;> cases y.negative <;> simp

/-- A sum that fits is exact. -/
theorem exists_add?_eq_some (hplaces : places ≤ 28) (hfits : FitsIn places (x.value + y.value)) :
    ∃ z, x.add? y = some z ∧ z.value = x.value + y.value := by
  unfold add?
  split
  · next hx => exact ⟨y, rfl, by rw [value_eq_zero_of_isZero hx, zero_add]⟩
  · split
    · next hy => exact ⟨x, rfl, by rw [value_eq_zero_of_isZero hy, add_zero]⟩
    · refine exists_fit?_eq_some hplaces hfits ?_
      have hx := atScale_eq_value_mul (Nat.le_max_left x.scale y.scale)
      have hy := atScale_eq_value_mul (Nat.le_max_right x.scale y.scale)
      have hsum : x.value + y.value = ((x.atScale (Max.max x.scale y.scale) +
          y.atScale (Max.max x.scale y.scale) : ℤ) : ℚ) / 10 ^ Max.max x.scale y.scale := by
        rw [Int.cast_add, hx, hy]
        field_simp
      rw [hsum, Nat.cast_natAbs, Int.cast_abs]
      generalize x.atScale (Max.max x.scale y.scale) + y.atScale (Max.max x.scale y.scale) = sum
      rcases lt_or_ge sum 0 with hneg | hnonneg
      · simp [hneg, abs_of_neg (Int.cast_lt_zero.2 hneg : (sum : ℚ) < 0), neg_div]
      · simp [hnonneg.not_gt, abs_of_nonneg (Int.cast_nonneg hnonneg : (0 : ℚ) ≤ sum)]

end TradeIn.Decimal
