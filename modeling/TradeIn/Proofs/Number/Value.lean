import Mathlib.Algebra.Order.Field.Power
import Mathlib.Data.Int.ConditionallyCompleteOrder
import Mathlib.Data.Rat.Floor
import Mathlib.Tactic.FieldSimp
import Mathlib.Tactic.Linarith
import Mathlib.Tactic.Positivity
import TradeIn.Number.Decimal

/-!
# What numbers stand for

A binary64 number and a decimal each stand for a rational number. The comparison of decimals is the order of these
values, and `Decimal.round` takes the nearest whole number with a half going away from zero (`halfAway`), which is
monotone. A binary64 number that is whole has a decimal of the same value.
-/

namespace TradeIn

/-- The whole number nearest to a rational number; a half goes away from zero. -/
def halfAway (v : ℚ) : ℤ := if 0 ≤ v then ⌊v + 1 / 2⌋ else ⌈v - 1 / 2⌉

/-- Numbers of either sign are rounded alike. -/
theorem halfAway_neg (v : ℚ) : halfAway (-v) = -halfAway v := by
  have hneg : -v - 1 / 2 = -(v + 1 / 2) := by ring
  have hpos : -v + 1 / 2 = -(v - 1 / 2) := by ring
  rcases lt_trichotomy v 0 with hv | rfl | hv
  · rw [halfAway, halfAway, if_pos (by linarith), if_neg (by linarith), hpos, Int.floor_neg]
  · norm_num [halfAway]
  · rw [halfAway, halfAway, if_neg (by linarith), if_pos hv.le, hneg, Int.ceil_neg]

/-- A greater number is not rounded to a lesser one. -/
theorem halfAway_mono : Monotone halfAway := by
  intro v w hvw
  unfold halfAway
  split
  · rw [if_pos (by linarith)]
    exact Int.floor_mono (by linarith)
  · split
    · have hup : ⌈v - 1 / 2⌉ ≤ 0 := Int.ceil_le.2 (by push_cast; linarith)
      have hdown : 0 ≤ ⌊w + 1 / 2⌋ := Int.floor_nonneg.2 (by linarith)
      omega
    · exact Int.ceil_mono (by linarith)

/-- A whole number is rounded to itself. -/
theorem halfAway_intCast (n : ℤ) : halfAway n = n := by
  unfold halfAway
  split
  · rw [Int.floor_eq_iff]
    constructor <;> linarith
  · rw [Int.ceil_eq_iff]
    constructor <;> linarith

/-- Rounding a quotient of natural numbers up from the half is rounding its value. -/
theorem divHalfUp_eq_halfAway {num den : Nat} (hden : 0 < den) :
    (divHalfUp num den : ℤ) = halfAway ((num : ℚ) / den) := by
  have hpos : (0 : ℚ) < den := by exact_mod_cast hden
  have hhalf : (num : ℚ) / den + 1 / 2 = ((2 * num + den : ℕ) : ℚ) / ((2 * den : ℕ) : ℚ) := by
    push_cast
    field_simp
  rw [halfAway, if_pos (by positivity), hhalf, Rat.floor_natCast_div_natCast, divHalfUp]
  norm_cast

namespace Finite64

variable {x : Finite64}

/-- The number that a finite binary64 number stands for. -/
def value (x : Finite64) : ℚ := (if x.negative then -1 else 1) * (x.significand * 2 ^ x.exponent)

/-- A significand has 53 bits. -/
theorem significand_lt (x : Finite64) : x.significand < 2 ^ 53 := by
  have hmod := Nat.mod_lt x.rank.val (Nat.two_pow_pos 52)
  unfold significand
  split <;> omega

/-- The numbers below `2 ^ 63` reach no further than the largest signed 64-bit integer. -/
theorem value_le_of_belowTwoPow63 (h : x.belowTwoPow63 = true) : x.value ≤ 2 ^ 63 - 1 := by
  have hsignificand := x.significand_lt
  have hrank : x.rank.val < 1086 * 2 ^ 52 := by simpa [belowTwoPow63] using h
  have hexponent : x.exponent ≤ 10 := by
    simp only [exponent, exponentField]
    omega
  have hmagnitude : (x.significand : ℚ) * 2 ^ x.exponent ≤ (2 ^ 53 - 1) * 2 ^ (10 : ℤ) := by
    have hle : (x.significand : ℚ) ≤ 2 ^ 53 - 1 := by
      have hcast : ((x.significand + 1 : ℕ) : ℚ) ≤ ((2 ^ 53 : ℕ) : ℚ) := by exact_mod_cast hsignificand
      push_cast at hcast
      linarith
    have hpow : (2 : ℚ) ^ x.exponent ≤ 2 ^ (10 : ℤ) := zpow_le_zpow_right₀ (by norm_num) hexponent
    exact mul_le_mul hle hpow (by positivity) (by norm_num)
  have hnonneg : (0 : ℚ) ≤ x.significand * 2 ^ x.exponent := by positivity
  unfold value
  split <;> norm_num at hmagnitude ⊢ <;> linarith

end Finite64

namespace Decimal

variable {x y : Decimal}

/-- The number that a decimal stands for. -/
def value (x : Decimal) : ℚ := x.signed / 10 ^ x.scale

/-- A decimal that is written with more places keeps its value. -/
theorem atScale_eq_value_mul {scale : Nat} (h : x.scale ≤ scale) : (x.atScale scale : ℚ) = x.value * 10 ^ scale := by
  obtain ⟨more, rfl⟩ := Nat.exists_eq_add_of_le h
  rw [atScale, value, Nat.add_sub_cancel_left]
  push_cast
  field_simp
  ring

/-- Decimals are compared by value. -/
theorem le_iff_value_le : x.le y = true ↔ x.value ≤ y.value := by
  have hx := atScale_eq_value_mul (le_max_left x.scale y.scale)
  have hy := atScale_eq_value_mul (le_max_right x.scale y.scale)
  have hpow : (0 : ℚ) < 10 ^ Max.max x.scale y.scale := by positivity
  simp only [le, decide_eq_true_eq]
  rw [← Int.cast_le (R := ℚ), hx, hy, mul_le_mul_iff_left₀ hpow]

/-- The larger of two decimals has the larger value. -/
theorem value_max (x y : Decimal) : (x.max y).value = Max.max x.value y.value := by
  unfold max
  split
  · next h => exact (max_eq_right (le_iff_value_le.1 h)).symm
  · next h => exact (max_eq_left (not_le.1 fun hle => h (le_iff_value_le.2 hle)).le).symm

/-- Rounding a decimal is rounding its value. -/
theorem round_eq_halfAway (x : Decimal) : x.round = halfAway x.value := by
  have hmagnitude : (divHalfUp x.coefficient (10 ^ x.scale) : ℤ) = _ := divHalfUp_eq_halfAway (Nat.pow_pos (by decide))
  push_cast at hmagnitude
  simp only [round, value, signed]
  split
  · rw [hmagnitude, ← halfAway_neg]
    push_cast
    rw [neg_div]
  · rw [hmagnitude]
    push_cast
    rfl

/-- The whole units of a decimal are its nearest whole number, held at the ends of the signed 64-bit range. -/
theorem toInt_toWholeUnits (x : Decimal) :
    x.toWholeUnits.toInt = Max.max (-2 ^ 63) (min (2 ^ 63 - 1) (halfAway x.value)) := by
  have hmin : Int64.minValue.toInt = -2 ^ 63 := rfl
  have hmax : Int64.maxValue.toInt = 2 ^ 63 - 1 := rfl
  rw [toWholeUnits, hmin, hmax, round_eq_halfAway]
  generalize halfAway x.value = units
  split
  · rw [hmin]
    omega
  · split
    · rw [hmax]
      omega
    · rw [Int64.toInt_ofInt_of_le (by omega) (by omega)]
      omega

/-- An even power of two in the significand is traded away completely. -/
theorem tradeHalvings_mul_two_pow (halvings whole scale : Nat) :
    tradeHalvings halvings (whole * 2 ^ halvings) scale = (whole, scale - halvings) := by
  induction halvings generalizing scale with
  | zero => simp [tradeHalvings]
  | succ halvings ih =>
    have hdouble : whole * 2 ^ (halvings + 1) = 2 * (whole * 2 ^ halvings) := by ring
    have heven : whole * 2 ^ (halvings + 1) % 2 = 0 := by omega
    have hhalf : whole * 2 ^ (halvings + 1) / 2 = whole * 2 ^ halvings := by omega
    rw [tradeHalvings, if_pos heven, hhalf, ih, Nat.sub_sub, Nat.add_comm 1]

/-- A whole number keeps its digits and has no places. -/
theorem ofHalvings_mul_two_pow (halvings whole : Nat) : ofHalvings (whole * 2 ^ halvings) halvings = (whole, 0) := by
  simp only [ofHalvings, tradeHalvings_mul_two_pow, Nat.sub_self, toTwentyEightPlaces, toBinaryPrecision,
    dropTrailingZeros]

/-- The value of a decimal without places. -/
theorem value_of_mk? {negative : Bool} {whole : Nat} (h : mk? negative (whole, 0) = some x) :
    x.value = (if negative then -1 else 1) * (whole : ℚ) := by
  unfold mk? at h
  split at h
  · obtain rfl := Option.some.inj h
    cases negative <;> simp [value, signed]
  · cases h

/-- The decimal of a whole binary64 number has the same value. -/
theorem value_of_ofFinite64? {x : Finite64} {d : Decimal} (h : ofFinite64? x = some d) {n : ℤ} (hwhole : x.value = n) :
    d.value = x.value := by
  unfold ofFinite64? at h
  split at h
  · next hzero =>
    have hrank : x.rank.val = 0 := by simpa [Finite64.isZero] using hzero
    simp [value_of_mk? h, Finite64.value, Finite64.significand, hrank]
  · split at h
    · next hexponent =>
      have hpow : (2 : ℚ) ^ x.exponent = 2 ^ x.exponent.toNat := by
        rw [← zpow_natCast, Int.toNat_of_nonneg hexponent]
      rw [value_of_mk? h, Finite64.value, hpow]
      push_cast
      rfl
    · next hexponent =>
      obtain ⟨halvings, hhalvings⟩ : ∃ halvings : ℕ, x.exponent = -halvings :=
        ⟨(-x.exponent).toNat, by omega⟩
      have hsignificand : (x.significand : ℚ) = n.natAbs * 2 ^ halvings := by
        rw [Finite64.value, hhalvings, zpow_neg, zpow_natCast] at hwhole
        have habs : (x.significand : ℚ) * ((2 : ℚ) ^ halvings)⁻¹ = |(n : ℚ)| := by
          rw [← hwhole, abs_mul, abs_of_nonneg (by positivity : (0 : ℚ) ≤ x.significand * (2 ^ halvings)⁻¹)]
          split <;> simp
        rw [Nat.cast_natAbs, Int.cast_abs, ← habs]
        field_simp
      have hnat : x.significand = n.natAbs * 2 ^ halvings := by exact_mod_cast hsignificand
      rw [hhalvings, neg_neg, Int.toNat_natCast, hnat, ofHalvings_mul_two_pow] at h
      rw [value_of_mk? h, Finite64.value, hhalvings, hsignificand, zpow_neg, zpow_natCast]
      field_simp

end Decimal

end TradeIn
