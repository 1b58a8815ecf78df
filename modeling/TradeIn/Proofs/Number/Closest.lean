import TradeIn.Proofs.Json.NumberValue

/-!
# Closest numbers

Rounding takes a binary64 number than which no other one is closer to the quotient. Within the grid around the quotient
that is the nearest whole number of steps. The numbers of finer grids all lie below the least number of that grid that is
considered, so none of them is closer.

A whole number is rounded to a whole number.
-/

namespace TradeIn

/-- No whole number is closer than one at most a half away. -/
theorem abs_sub_le_of_abs_sub_le_half {nearest : ℤ} {v : ℚ} (h : |nearest - v| ≤ 1 / 2) (k : ℤ) :
    |nearest - v| ≤ |k - v| := by
  rcases eq_or_ne k nearest with rfl | hne
  · exact le_rfl
  · have hapart : (1 : ℚ) ≤ |(k : ℚ) - nearest| := by
      exact_mod_cast Int.one_le_abs (sub_ne_zero.2 hne)
    have htriangle : |(k : ℚ) - nearest| ≤ |k - v| + |nearest - v| := by
      simpa [abs_sub_comm v] using abs_sub_le (k : ℚ) v nearest
    linarith

/-- No number is closer to a quotient than the one that the quotient is rounded to. -/
theorem Binary64.abs_magnitude_sub_le_abs_sub {negative : Bool} {num den : Nat} {x : Finite64} (hden : 0 < den)
    (h : ofRatio negative num den = .finite x) (y : Finite64) :
    |x.magnitude - num / den| ≤ |y.magnitude - num / den| := by
  unfold ofRatio at h
  split at h
  · next hfinite =>
    obtain rfl := Binary64.finite.inj h
    rcases Nat.eq_zero_or_pos num with rfl | hnum
    · rw [Finite64.magnitude_eq_zero rfl]
      simp
    obtain ⟨-, hlow, hgrid⟩ := binaryGrid_spec hnum hden
    obtain ⟨steps, hrank, hsteps, hmany, hnearest⟩ := nearestRank_spec hnum hden
    rw [Finite64.magnitude_of_rank hrank hgrid hsteps hmany]
    generalize (num : ℚ) / den = v at hlow hnearest
    generalize binaryGrid num den = grid at hlow hgrid hnearest
    have hpos : (0 : ℚ) < 2 ^ grid := by positivity
    have honGrid : ∀ k : ℤ, |steps * 2 ^ grid - v| ≤ |k * 2 ^ grid - v| := by
      intro k
      have hscaled : ∀ w : ℚ, |w * 2 ^ grid - v| = |w - v / 2 ^ grid| * 2 ^ grid := by
        intro w
        rw [← abs_of_pos hpos, ← abs_mul, sub_mul, abs_of_pos hpos, div_mul_cancel₀ _ hpos.ne']
      rw [hscaled, hscaled]
      have hhalf : |((steps : ℤ) : ℚ) - v / 2 ^ grid| ≤ 1 / 2 := by exact_mod_cast hnearest
      have hclosest := abs_sub_le_of_abs_sub_le_half hhalf k
      push_cast at hclosest
      gcongr
    rcases le_or_gt grid y.exponent with hcoarse | hfine
    · obtain ⟨shift, hshift⟩ := Int.le.dest hcoarse
      have hy : y.magnitude = ((y.significand * 2 ^ shift : ℤ) : ℚ) * 2 ^ grid := by
        rw [Finite64.magnitude, ← hshift, zpow_add₀ (by norm_num), zpow_natCast]
        push_cast
        ring
      rw [hy]
      exact honGrid _
    · have hlow := hlow.resolve_left (by have hlowest := y.exponent_spec.1; omega)
      have hy : y.magnitude ≤ 2 ^ (grid + 52) := by
        have hsignificand : (y.significand : ℚ) ≤ 2 ^ (53 : ℤ) := by exact_mod_cast y.significand_lt.le
        calc y.magnitude ≤ 2 ^ (53 : ℤ) * 2 ^ (grid - 1) := by
              rw [Finite64.magnitude]
              gcongr
              · norm_num
              · omega
          _ = 2 ^ (grid + 52) := by
              rw [← zpow_add₀ (by norm_num)]
              congr 1
              omega
      have hleast := honGrid (2 ^ 52)
      have hpow : ((2 ^ 52 : ℤ) : ℚ) * 2 ^ grid = 2 ^ (grid + 52) := by
        rw [zpow_add₀ (by norm_num)]
        push_cast
        ring
      rw [hpow, abs_of_nonpos (sub_nonpos.2 hlow)] at hleast
      rw [abs_of_nonpos (sub_nonpos.2 (hy.trans hlow))]
      linarith
  · cases h

/-- A whole number is rounded to a whole number. -/
theorem Finite64.exists_magnitude_ofNat_eq (negative : Bool) {n : ℕ} (h : n < 2 ^ 64) :
    ∃ m : ℕ, (ofNat negative n h).magnitude = m := by
  rcases Nat.eq_zero_or_pos n with rfl | hpos
  · exact ⟨0, magnitude_eq_zero rfl⟩
  rcases le_total 0 (binaryGrid n 1) with hcoarse | hfine
  · obtain ⟨-, -, hgrid⟩ := binaryGrid_spec hpos Nat.one_pos
    obtain ⟨steps, hrank, hhigh, hlow, -⟩ := nearestRank_spec hpos Nat.one_pos
    obtain ⟨twos, htwos⟩ := Int.eq_ofNat_of_zero_le hcoarse
    refine ⟨steps * 2 ^ twos, ?_⟩
    rw [magnitude_of_rank (x := ofNat negative n h) hrank hgrid hhigh hlow, htwos, zpow_natCast]
    push_cast
    rfl
  · refine ⟨n, magnitude_ofNat_of_eq_steps h (k := n * 2 ^ (-binaryGrid n 1).toNat) ?_⟩
    have hone : (2 : ℚ) ^ (-binaryGrid n 1).toNat * 2 ^ binaryGrid n 1 = 1 := by
      rw [← zpow_natCast, ← zpow_add₀ (by norm_num), Int.toNat_of_nonneg (by omega), neg_add_cancel, zpow_zero]
    push_cast
    rw [mul_assoc, hone, mul_one]

namespace Number

/-- No binary64 number is closer to a number than the one it is rounded to. -/
theorem abs_value_toFinite64_sub_le (n : Number) (y : Finite64) :
    |n.toFinite64.value - n.value| ≤ |y.value - n.value| := by
  cases n with
  | binary x => simp [toFinite64, value]
  | integer v inRange =>
    have hclosest := Binary64.abs_magnitude_sub_le_abs_sub Nat.one_pos
      (Finite64.ofRatio_one (v < 0) v.natAbs (natAbs_lt_of_inRange inRange)) y
    rw [Nat.cast_one, div_one, Nat.cast_natAbs, Int.cast_abs] at hclosest
    rw [value_toFinite64_integer, value]
    generalize (Finite64.ofNat (v < 0) v.natAbs (natAbs_lt_of_inRange inRange)).magnitude = m at hclosest
    have hsign : |(if v < 0 then -1 else 1) * m - v| = |m - abs (v : ℚ)| := by
      rcases lt_or_ge v 0 with hneg | hnonneg
      · rw [if_pos hneg, abs_of_neg (Int.cast_lt_zero.2 hneg : (v : ℚ) < 0), ← abs_neg]
        congr 1
        ring
      · rw [if_neg hnonneg.not_gt, one_mul, abs_of_nonneg (Int.cast_nonneg hnonneg : (0 : ℚ) ≤ v)]
    have hreverse := abs_abs_sub_abs_le y.value (v : ℚ)
    rw [Finite64.abs_value] at hreverse
    exact hsign.le.trans (hclosest.trans hreverse)

/-- A whole number is rounded to a whole number. -/
theorem exists_value_toFinite64_eq (v : ℤ) (inRange : -2 ^ 63 ≤ v ∧ v < 2 ^ 64) :
    ∃ m : ℤ, (integer v inRange).toFinite64.value = m := by
  obtain ⟨m, hm⟩ := Finite64.exists_magnitude_ofNat_eq (v < 0) (natAbs_lt_of_inRange inRange)
  rw [value_toFinite64_integer, hm]
  split
  · exact ⟨-m, by push_cast; ring⟩
  · exact ⟨m, by push_cast; ring⟩

end Number

end TradeIn
