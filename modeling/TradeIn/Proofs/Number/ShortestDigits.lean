import TradeIn.Number.Shortest
import TradeIn.Proofs.Number.Nearest

/-!
# How large the shortest digits are

The digits that a number is written with read back as the number, so they write a number that is at most half a step
above it. Only for the largest numbers can that be nearly as large as the largest of them.
-/

namespace TradeIn

namespace DecimalDigits

/-- The number that the digits write. -/
def value (d : DecimalDigits) : ℚ := d.coefficient * 10 ^ d.exponent

/-- Dropping zeros at the end changes neither the number nor whether it is zero. -/
theorem dropZeros_spec (limit coefficient : ℕ) (exponent : ℤ) :
    (dropZeros limit coefficient exponent).value = coefficient * 10 ^ exponent ∧
      ((dropZeros limit coefficient exponent).coefficient = 0 → coefficient = 0) := by
  induction limit generalizing coefficient exponent with
  | zero => exact ⟨rfl, id⟩
  | succ limit ih =>
    unfold dropZeros
    split
    · next hzero =>
      obtain ⟨hvalue, hnonzero⟩ := ih (coefficient / 10) (exponent + 1)
      have hsplit : (coefficient : ℚ) = 10 * (coefficient / 10 : ℕ) := by
        have hdiv : coefficient = 10 * (coefficient / 10) := by omega
        exact_mod_cast hdiv
      refine ⟨?_, fun hcoefficient => ?_⟩
      · rw [hvalue, hsplit, zpow_add_one₀ (by norm_num)]
        ring
      · have hdiv := hnonzero hcoefficient
        omega
    · exact ⟨rfl, id⟩

end DecimalDigits

namespace Finite64

variable {x : Finite64}

/-- A decimal that reads back is not zero, and no more than half a step above the magnitude. -/
theorem readsBack_spec {grid : ℤ} {coefficient : ℕ} (hpos : 0 < x.significand)
    (h : x.readsBack grid coefficient = true) :
    0 < coefficient ∧ coefficient * (10 : ℚ) ^ grid ≤ (x.significand + 1 / 2) * 2 ^ x.exponent := by
  have hbounds : (4 * x.significand - x.quartersBelow) * (2 ^ x.exponent.toNat * 10 ^ (-grid).toNat) ≤
        4 * coefficient * (2 ^ (-x.exponent).toNat * 10 ^ grid.toNat) ∧
      4 * coefficient * (2 ^ (-x.exponent).toNat * 10 ^ grid.toNat) ≤
        (4 * x.significand + 2) * (2 ^ x.exponent.toNat * 10 ^ (-grid).toNat) := by
    simp only [readsBack] at h
    split at h
    · simpa using h
    · rw [Bool.and_eq_true, decide_eq_true_eq, decide_eq_true_eq] at h
      exact ⟨h.1.le, h.2.le⟩
  constructor
  · have hquarters : x.quartersBelow ≤ 2 := by
      unfold quartersBelow
      split <;> decide
    have hlow : 0 < (4 * x.significand - x.quartersBelow) * (2 ^ x.exponent.toNat * 10 ^ (-grid).toNat) :=
      Nat.mul_pos (by omega) (by positivity)
    rcases Nat.eq_zero_or_pos coefficient with rfl | hcoefficient
    · simp at hbounds
      omega
    · exact hcoefficient
  · have hhigh : (4 * coefficient * (2 ^ (-x.exponent).toNat * 10 ^ grid.toNat) : ℚ) ≤
        (4 * x.significand + 2) * (2 ^ x.exponent.toNat * 10 ^ (-grid).toNat) := by exact_mod_cast hbounds.2
    rw [zpow_eq_div 10 grid, zpow_eq_div 2 x.exponent, mul_div_assoc', mul_div_assoc', div_le_div_iff₀ (by positivity)
      (by positivity)]
    linarith

/-- What is found on a grid reads back. -/
theorem onGrid?_spec {grid : ℤ} {digits : DecimalDigits} (h : x.onGrid? grid = some digits) :
    ∃ coefficient, digits = ⟨coefficient, grid⟩ ∧ x.readsBack grid coefficient = true := by
  unfold onGrid? at h
  extract_lets num den below nearest other at h
  split at h
  · next hreads => exact ⟨nearest, (Option.some.inj h).symm, hreads⟩
  · split at h
    · next hreads => exact ⟨other, (Option.some.inj h).symm, hreads⟩
    · cases h

/-- The digits of a number are zero only if they are the digit zero, and no more than half a step above its
magnitude. -/
theorem shortest_spec (x : Finite64) :
    (x.shortest.coefficient = 0 → x.shortest.exponent = 0) ∧
      x.shortest.value ≤ (x.significand + 1 / 2) * 2 ^ x.exponent := by
  have hzero : DecimalDigits.value ⟨0, 0⟩ ≤ (x.significand + 1 / 2) * 2 ^ x.exponent := by
    rw [DecimalDigits.value, Nat.cast_zero, zero_mul]
    positivity
  unfold shortest
  split
  · exact ⟨fun _ => rfl, hzero⟩
  · next hnonzero =>
    split
    · next digits hfound =>
      obtain ⟨step, -, hstep⟩ := List.exists_of_findSome?_eq_some hfound
      have hpos : 0 < x.significand := by
        have hrank : x.rank.val ≠ 0 := by simpa [isZero] using hnonzero
        unfold significand
        split <;> omega
      obtain ⟨coefficient, rfl, hreads⟩ := onGrid?_spec hstep
      obtain ⟨hcoefficient, hvalue⟩ := readsBack_spec hpos hreads
      obtain ⟨hkept, hkeptZero⟩ := DecimalDigits.dropZeros_spec 20 coefficient (x.coarsestGrid - step)
      refine ⟨fun hdropped => ?_, hkept.trans_le hvalue⟩
      have hnone := hkeptZero hdropped
      omega
    · exact ⟨fun _ => rfl, hzero⟩

/-- Apart from the five largest numbers of either sign, the digits of a number do not write one that is nearly as large
as the largest. -/
theorem value_shortest_le (h : x.rank.val < 2047 * 2 ^ 52 - 5) :
    x.shortest.value ≤ readingLimit := by
  have hfield : x.exponentField = x.rank.val / 2 ^ 52 := rfl
  have hsignificand : x.significand = if x.rank.val < 2 ^ 52 then x.rank.val else 2 ^ 52 + x.rank.val % 2 ^ 52 := rfl
  have hexponent : x.exponent = ((max x.exponentField 1 : ℕ) : ℤ) - 1075 := rfl
  have hlt := x.significand_lt
  rw [readingLimit]
  refine x.shortest_spec.2.trans ?_
  rcases Nat.lt_or_ge x.rank.val (2046 * 2 ^ 52) with hlow | hhigh
  · have hpow : (2 : ℚ) ^ x.exponent ≤ 2 ^ (970 : ℤ) := zpow_le_zpow_right₀ (by norm_num) (by omega)
    have hcast : (x.significand : ℚ) ≤ 2 ^ 53 := by exact_mod_cast hlt.le
    calc (x.significand + 1 / 2 : ℚ) * 2 ^ x.exponent ≤ (2 ^ 53 + 1 / 2) * 2 ^ (970 : ℤ) := by gcongr
      _ ≤ (2 ^ 53 - 5) * 2 * 2 ^ (970 : ℤ) := by
        gcongr
        norm_num
      _ = (2 ^ 53 - 5) * 2 ^ (971 : ℤ) := by
        rw [show (971 : ℤ) = 970 + 1 by norm_num, zpow_add_one₀ (by norm_num)]
        ring
  · have htop : x.exponent = 971 := by omega
    have hle : x.significand ≤ 2 ^ 53 - 6 := by
      rw [hsignificand]
      split <;> omega
    have hcast : (x.significand : ℚ) ≤ 2 ^ 53 - 6 := by
      have hadd : x.significand + 6 ≤ 2 ^ 53 := by omega
      have haddCast : (x.significand + 6 : ℚ) ≤ 2 ^ 53 := by exact_mod_cast hadd
      linarith
    rw [htop]
    gcongr
    linarith

end Finite64

end TradeIn
