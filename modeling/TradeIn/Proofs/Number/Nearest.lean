import Mathlib.Tactic.NormNum
import TradeIn.Number.LeadingDigits
import TradeIn.Proofs.Number.Value

/-!
# How far rounding goes

Rounding a quotient to a binary64 number moves it by at most half a step of the grid around it. A quotient below the
middle between the largest finite number and the next power of two therefore stays finite, and reading leading digits
stays finite with it unless they write a number that is nearly as large.
-/

namespace TradeIn

variable {num den : Nat}

/-- The nearest whole number is at most a half away. -/
theorem abs_divHalfEven_sub_le (num : Nat) (hden : 0 < den) : |(divHalfEven num den : ℚ) - num / den| ≤ 1 / 2 := by
  have hpos : (0 : ℚ) < den := by exact_mod_cast hden
  have hnum := Nat.div_add_mod num den
  have hmod := Nat.mod_lt num hden
  have hbounds : 2 * num ≤ 2 * (den * divHalfEven num den) + den ∧ 2 * (den * divHalfEven num den) ≤ 2 * num + den := by
    simp only [divHalfEven]
    split
    · omega
    · rw [Nat.mul_add_one]
      omega
  have hlow : (2 * num : ℚ) ≤ 2 * (den * divHalfEven num den) + den := by exact_mod_cast hbounds.1
  have hhigh : (2 * (den * divHalfEven num den) : ℚ) ≤ 2 * num + den := by exact_mod_cast hbounds.2
  rw [abs_le, neg_le_sub_iff_le_add, sub_le_iff_le_add, div_le_iff₀ hpos, ← sub_le_iff_le_add', le_div_iff₀ hpos]
  constructor <;> linarith

/-- A power with an exponent of either sign is a quotient of powers with natural exponents. -/
theorem zpow_eq_div (base : ℚ) (exponent : ℤ) : base ^ exponent = base ^ exponent.toNat / base ^ (-exponent).toNat := by
  rcases le_total 0 exponent with hexponent | hexponent
  · rw [Int.toNat_of_nonpos (by omega : -exponent ≤ 0), pow_zero, div_one, ← zpow_natCast,
      Int.toNat_of_nonneg hexponent]
  · rw [Int.toNat_of_nonpos hexponent, pow_zero, one_div, ← zpow_natCast,
      Int.toNat_of_nonneg (by omega : 0 ≤ -exponent), zpow_neg, inv_inv]

/-- A quotient on a binary grid is a quotient of natural numbers. -/
theorem scaled_eq_div (num den : Nat) (grid : ℤ) :
    ((num * 2 ^ (-grid).toNat : ℕ) : ℚ) / ((den * 2 ^ grid.toNat : ℕ) : ℚ) = num / den / 2 ^ grid := by
  rw [zpow_eq_div 2 grid]
  push_cast
  field_simp

/-- A positive whole number lies between two powers of two. -/
theorem two_zpow_log2_bounds {n : Nat} (hn : 0 < n) :
    (2 : ℚ) ^ (n.log2 : ℤ) ≤ n ∧ (n : ℚ) < 2 ^ ((n.log2 : ℤ) + 1) := by
  constructor
  · rw [zpow_natCast]
    exact_mod_cast Nat.log2_self_le hn.ne'
  · exact_mod_cast (Nat.lt_log2_self : n < 2 ^ (n.log2 + 1))

/-- Around a quotient the grid has steps of which it takes fewer than `2 ^ 53`, and at least `2 ^ 52` unless the grid is
the finest one. -/
theorem binaryGrid_spec (hnum : 0 < num) (hden : 0 < den) :
    (num / den : ℚ) < 2 ^ (binaryGrid num den + 53) ∧
      (binaryGrid num den = -1074 ∨ (2 : ℚ) ^ (binaryGrid num den + 52) ≤ num / den) ∧
      -1074 ≤ binaryGrid num den := by
  obtain ⟨hnumLow, hnumHigh⟩ := two_zpow_log2_bounds hnum
  obtain ⟨hdenLow, hdenHigh⟩ := two_zpow_log2_bounds hden
  have hposDen : (0 : ℚ) < den := by exact_mod_cast hden
  -- The guess is right, or one too large.
  generalize hguess : (num.log2 : ℤ) - den.log2 - 52 = guess
  have hbelow : (num / den : ℚ) < 2 ^ (guess + 53) := by
    rw [div_lt_iff₀ hposDen]
    calc (num : ℚ) < 2 ^ ((num.log2 : ℤ) + 1) := hnumHigh
      _ = 2 ^ (guess + 53) * 2 ^ (den.log2 : ℤ) := by
        rw [← zpow_add₀ (by norm_num)]
        congr 1
        omega
      _ ≤ 2 ^ (guess + 53) * den := by gcongr
  have habove : (2 : ℚ) ^ (guess + 51) ≤ num / den := by
    rw [le_div_iff₀ hposDen]
    calc (2 : ℚ) ^ (guess + 51) * den ≤ 2 ^ (guess + 51) * 2 ^ ((den.log2 : ℤ) + 1) := by gcongr
      _ = 2 ^ (num.log2 : ℤ) := by
        rw [← zpow_add₀ (by norm_num)]
        congr 1
        omega
      _ ≤ num := hnumLow
  have htest : (num * 2 ^ (-guess).toNat < den * 2 ^ guess.toNat * 2 ^ 52) ↔ (num / den : ℚ) < 2 ^ (guess + 52) := by
    have hscaled : (0 : ℚ) < ((den * 2 ^ guess.toNat : ℕ) : ℚ) := by positivity
    rw [zpow_add₀ (by norm_num), ← div_lt_iff₀' (by positivity), ← scaled_eq_div, div_lt_iff₀ hscaled]
    norm_cast
    rw [Nat.mul_comm (2 ^ 52)]
  have hclamped : ∀ grid : ℤ, (num / den : ℚ) < 2 ^ (grid + 53) → (2 : ℚ) ^ (grid + 52) ≤ num / den →
      (num / den : ℚ) < 2 ^ (max grid (-1074) + 53) ∧
        (max grid (-1074) = -1074 ∨ (2 : ℚ) ^ (max grid (-1074) + 52) ≤ num / den) ∧ -1074 ≤ max grid (-1074) := by
    intro grid hhigh hlow
    refine ⟨hhigh.trans_le (zpow_le_zpow_right₀ (by norm_num) (by omega)), ?_, le_max_right _ _⟩
    rcases le_total grid (-1074) with hle | hle
    · exact .inl (max_eq_right hle)
    · exact .inr (by rwa [max_eq_left hle])
  simp only [binaryGrid, hguess, htest]
  split
  · next hlt =>
    refine hclamped (guess - 1) ?_ ?_
    · rwa [show guess - 1 + 53 = guess + 52 by omega]
    · rwa [show guess - 1 + 52 = guess + 51 by omega]
  · next hle => exact hclamped guess hbelow (not_lt.1 hle)

/-- The nearest rank counts the steps of the grid that the quotient takes, to the nearest whole step. -/
theorem nearestRank_spec (hnum : 0 < num) (hden : 0 < den) :
    ∃ steps : ℕ, nearestRank num den = (binaryGrid num den + 1074).toNat * 2 ^ 52 + steps ∧ steps ≤ 2 ^ 53 ∧
      (binaryGrid num den = -1074 ∨ 2 ^ 52 ≤ steps) ∧ |(steps : ℚ) - num / den / 2 ^ binaryGrid num den| ≤ 1 / 2 := by
  obtain ⟨hhigh, hlow, -⟩ := binaryGrid_spec hnum hden
  rw [nearestRank, if_neg hnum.ne']
  simp only
  generalize binaryGrid num den = grid at hhigh hlow ⊢
  have hscaled := scaled_eq_div num den grid
  have hpos : 0 < den * 2 ^ grid.toNat := by positivity
  have hposCast : (0 : ℚ) < ((den * 2 ^ grid.toNat : ℕ) : ℚ) := by exact_mod_cast hpos
  have hnearest := abs_divHalfEven_sub_le (num * 2 ^ (-grid).toNat) hpos
  rw [hscaled] at hnearest
  refine ⟨_, rfl, ?_, hlow.imp_right fun hlow => ?_, hnearest⟩
  · have hquotient : num * 2 ^ (-grid).toNat < den * 2 ^ grid.toNat * 2 ^ 53 := by
      rw [zpow_add₀ (by norm_num), ← div_lt_iff₀' (by positivity), ← hscaled, div_lt_iff₀ hposCast] at hhigh
      rw [Nat.mul_comm _ (2 ^ 53)]
      exact_mod_cast hhigh
    have hround := divHalfEven_le (num * 2 ^ (-grid).toNat) (den * 2 ^ grid.toNat)
    have hdiv := Nat.div_lt_of_lt_mul hquotient
    omega
  · have hquotient : 2 ^ 52 * (den * 2 ^ grid.toNat) ≤ num * 2 ^ (-grid).toNat := by
      rw [zpow_add₀ (by norm_num), ← le_div_iff₀' (by positivity), ← hscaled, le_div_iff₀ hposCast] at hlow
      exact_mod_cast hlow
    exact ((Nat.le_div_iff_mul_le hpos).2 hquotient).trans (le_divHalfEven _ _)

namespace Finite64

/-- The magnitude of a number. -/
def magnitude (x : Finite64) : ℚ := x.significand * 2 ^ x.exponent

/-- A magnitude is not negative. -/
theorem magnitude_nonneg (x : Finite64) : 0 ≤ x.magnitude := by
  rw [magnitude]
  positivity

/-- Zero has no magnitude. -/
theorem magnitude_eq_zero {x : Finite64} (h : x.rank.val = 0) : x.magnitude = 0 := by
  simp [magnitude, significand, h]

/-- The number that is so many steps of a grid away from zero. -/
theorem magnitude_of_rank {x : Finite64} {grid : ℤ} {steps : ℕ}
    (hrank : x.rank.val = (grid + 1074).toNat * 2 ^ 52 + steps)
    (hgrid : -1074 ≤ grid) (hhigh : steps ≤ 2 ^ 53) (hlow : grid = -1074 ∨ 2 ^ 52 ≤ steps) :
    x.magnitude = steps * 2 ^ grid := by
  obtain ⟨k, rfl⟩ : ∃ k : ℕ, grid = k - 1074 := ⟨(grid + 1074).toNat, by omega⟩
  have htoNat : ((k : ℤ) - 1074 + 1074).toNat = k := by omega
  rw [htoNat] at hrank
  have hfield : x.exponentField = x.rank.val / 2 ^ 52 := rfl
  rw [magnitude, exponent, significand]
  rcases Nat.lt_trichotomy steps (2 ^ 53) with hsteps | rfl | hsteps
  · have hpower : ((max x.exponentField 1 : ℕ) : ℤ) - 1075 = k - 1074 := by omega
    have hsignificand : (if x.rank.val < 2 ^ 52 then x.rank.val else 2 ^ 52 + x.rank.val % 2 ^ 52) = steps := by
      split <;> omega
    rw [hpower, hsignificand]
  · have hpower : ((max x.exponentField 1 : ℕ) : ℤ) - 1075 = k - 1074 + 1 := by omega
    have hsignificand : (if x.rank.val < 2 ^ 52 then x.rank.val else 2 ^ 52 + x.rank.val % 2 ^ 52) = 2 ^ 52 := by
      split <;> omega
    rw [hpower, hsignificand, zpow_add_one₀ (by norm_num)]
    push_cast
    ring
  · omega

end Finite64

namespace Binary64

variable {negative : Bool} {x : Finite64}

/-- Below the middle between the largest finite number and the next power of two, a quotient is rounded to a finite
number. -/
theorem exists_ofRatio_eq_finite (negative : Bool) (hden : 0 < den)
    (h : (num / den : ℚ) < (2 ^ 53 - 1 / 2) * 2 ^ (971 : ℤ)) :
    ∃ x, ofRatio negative num den = .finite x := by
  have hrank : nearestRank num den < 2047 * 2 ^ 52 := by
    rcases Nat.eq_zero_or_pos num with rfl | hnum
    · exact (by decide : 0 < 2047 * 2 ^ 52)
    obtain ⟨-, hlow, hgrid⟩ := binaryGrid_spec hnum hden
    obtain ⟨steps, hrank, hsteps, -, hnearest⟩ := nearestRank_spec hnum hden
    rw [hrank]
    generalize binaryGrid num den = grid at hlow hgrid hnearest
    rcases Int.lt_trichotomy grid 971 with hless | rfl | hmore
    · omega
    · have hscaled : (num / den / 2 ^ (971 : ℤ) : ℚ) < 2 ^ 53 - 1 / 2 := by rwa [div_lt_iff₀ (by positivity)]
      have hlt : (steps : ℚ) < (2 ^ 53 : ℕ) := by
        push_cast
        linarith [(abs_le.1 hnearest).2]
      have hlt : steps < 2 ^ 53 := by exact_mod_cast hlt
      omega
    · have hlow := hlow.resolve_left (by omega)
      have hpow : (2 : ℚ) ^ ((53 : ℕ) + (971 : ℤ)) ≤ 2 ^ (grid + 52) := zpow_le_zpow_right₀ (by norm_num) (by omega)
      have hpos : (0 : ℚ) < 2 ^ (971 : ℤ) := by positivity
      rw [zpow_add₀ (by norm_num), zpow_natCast] at hpow
      generalize (2 : ℚ) ^ (971 : ℤ) = top at h hpow hpos
      linarith
  exact ⟨_, dif_pos hrank⟩

/-- Rounding moves a quotient by half a step of its grid: a `2 ^ 53`-th part of it, and very little near zero. -/
theorem abs_magnitude_sub_le (hden : 0 < den) (h : ofRatio negative num den = .finite x) :
    |x.magnitude - num / den| ≤ num / den / 2 ^ 53 + 2 ^ (-1075 : ℤ) := by
  unfold ofRatio at h
  split at h
  · next hfinite =>
    obtain rfl := Binary64.finite.inj h
    rcases Nat.eq_zero_or_pos num with rfl | hnum
    · rw [Finite64.magnitude_eq_zero rfl]
      norm_num
    obtain ⟨-, hlow, hgrid⟩ := binaryGrid_spec hnum hden
    obtain ⟨steps, hrank, hsteps, hmany, hnearest⟩ := nearestRank_spec hnum hden
    rw [Finite64.magnitude_of_rank hrank hgrid hsteps hmany]
    generalize binaryGrid num den = grid at hlow hnearest
    have hpos : (0 : ℚ) < 2 ^ grid := by positivity
    have hquotient : (0 : ℚ) ≤ num / den := by positivity
    have hstep : |steps * 2 ^ grid - (num / den : ℚ)| ≤ 2 ^ grid / 2 := by
      have hscaled : (num / den / 2 ^ grid : ℚ) * 2 ^ grid = num / den := div_mul_cancel₀ _ hpos.ne'
      calc |steps * 2 ^ grid - (num / den : ℚ)| = |(steps : ℚ) - num / den / 2 ^ grid| * 2 ^ grid := by
            rw [← abs_of_pos hpos, ← abs_mul, sub_mul, abs_of_pos hpos, hscaled]
        _ ≤ 1 / 2 * 2 ^ grid := by gcongr
        _ = 2 ^ grid / 2 := by ring
    refine hstep.trans ?_
    rcases hlow with rfl | hlow
    · have hfinest : (2 : ℚ) ^ (-1075 : ℤ) = 2 ^ (-1074 : ℤ) / 2 := by
        rw [show (-1075 : ℤ) = -1074 - 1 by norm_num, zpow_sub_one₀ (by norm_num)]
        ring
      rw [hfinest]
      linarith [div_nonneg hquotient (by positivity : (0 : ℚ) ≤ 2 ^ 53)]
    · rw [zpow_add₀ (by norm_num)] at hlow
      have hrelative : (2 : ℚ) ^ grid / 2 ≤ num / den / 2 ^ 53 := by
        rw [le_div_iff₀ (by positivity)]
        norm_num at hlow ⊢
        linarith
      linarith [(by positivity : (0 : ℚ) ≤ 2 ^ (-1075 : ℤ))]
  · cases h

/-- A quotient of at least one is moved by no more than its `2 ^ 52`-th part. -/
theorem abs_magnitude_sub_le_of_one_le (hden : 0 < den) (hone : (1 : ℚ) ≤ num / den)
    (h : ofRatio negative num den = .finite x) : |x.magnitude - num / den| ≤ num / den / 2 ^ 52 := by
  refine (abs_magnitude_sub_le hden h).trans ?_
  have htiny : (2 : ℚ) ^ (-1075 : ℤ) ≤ 2 ^ (-53 : ℤ) := zpow_le_zpow_right₀ (by norm_num) (by norm_num)
  generalize (num / den : ℚ) = quotient at hone ⊢
  generalize (2 : ℚ) ^ (-1075 : ℤ) = tiny at htiny ⊢
  norm_num at htiny ⊢
  linarith

/-- A power of ten is rounded like any other number. -/
theorem abs_magnitude_sub_ten_pow_le {power : ℕ} (h : ofScientific false 1 power = .finite x) :
    |x.magnitude - 10 ^ power| ≤ 10 ^ power / 2 ^ 52 := by
  have hlog : Nat.log2 1 = 0 := by decide
  have hone : (1 : ℚ) ≤ 10 ^ power := one_le_pow₀ (by norm_num)
  rw [ofScientific, if_neg one_ne_zero] at h
  split at h
  · cases h
  · rw [if_neg (by omega), Int.toNat_natCast, Int.toNat_of_nonpos (by omega)] at h
    simpa using abs_magnitude_sub_le_of_one_le (by norm_num) (by simpa using hone) h

/-- A power of ten within the range is a finite number. -/
theorem exists_ofScientific_eq_finite {power : ℕ} (hpower : (10 : ℚ) ^ power < (2 ^ 53 - 1 / 2) * 2 ^ (971 : ℤ))
    (hle : power ≤ 400) : ∃ x, ofScientific false 1 power = .finite x := by
  have hlog : Nat.log2 1 = 0 := by decide
  rw [ofScientific, if_neg one_ne_zero, if_neg (by omega), if_neg (by omega), Int.toNat_natCast,
    Int.toNat_of_nonpos (by omega)]
  refine exists_ofRatio_eq_finite false (by norm_num) ?_
  simpa using hpower

end Binary64

namespace Finite64

variable {x : Finite64} {power : ℕ}

/-- The number nearest to a whole number is a rounded quotient. -/
theorem ofRatio_one (negative : Bool) (n : ℕ) (h : n < 2 ^ 64) :
    Binary64.ofRatio negative n 1 = .finite (ofNat negative n h) := dif_pos (nearestRank_one_lt h)

/-- A product of two numbers is a quotient of natural numbers. -/
theorem magnitude_mul_eq_div (x y : Finite64) :
    ((x.significand * y.significand * 2 ^ (x.exponent + y.exponent).toNat : ℕ) : ℚ) /
      ((2 ^ (-(x.exponent + y.exponent)).toNat : ℕ) : ℚ) = x.magnitude * y.magnitude := by
  have hpow := zpow_eq_div 2 (x.exponent + y.exponent)
  rw [magnitude, magnitude, mul_mul_mul_comm, ← zpow_add₀ (by norm_num), hpow]
  push_cast
  ring

/-- So is a quotient of two numbers. -/
theorem magnitude_div_eq_div (x y : Finite64) :
    ((x.significand * 2 ^ (x.exponent - y.exponent).toNat : ℕ) : ℚ) /
      ((y.significand * 2 ^ (-(x.exponent - y.exponent)).toNat : ℕ) : ℚ) = x.magnitude / y.magnitude := by
  have hpow := zpow_eq_div 2 (x.exponent - y.exponent)
  rw [magnitude, magnitude, mul_div_mul_comm, ← zpow_sub₀ (by norm_num), hpow]
  push_cast
  rw [mul_div_mul_comm]

/-- What may be read step by step without overflow: hardly less than the largest number. -/
def readingLimit : ℚ := (2 ^ 53 - 5) * 2 ^ (971 : ℤ)

/-- A product with a power of ten stays finite where it is not nearly as large as the largest number. -/
theorem exists_timesPowerOfTen_eq_finite {v : ℚ} (hone : 1 ≤ v) (hmagnitude : |x.magnitude - v| ≤ v / 2 ^ 52)
    (hlimit : v * 10 ^ power ≤ readingLimit) : ∃ y, x.timesPowerOfTen power = .finite y := by
  rw [readingLimit] at hlimit
  have hpow : (1 : ℚ) ≤ 10 ^ power := one_le_pow₀ (by norm_num)
  have hle : (10 : ℚ) ^ power ≤ (2 ^ 53 - 5) * 2 ^ (971 : ℤ) :=
    (le_mul_of_one_le_left (by positivity) hone).trans hlimit
  have hpower : power ≤ 400 := by
    by_contra hmore
    have height : (2 : ℚ) ^ (3 * power) ≤ 10 ^ power := by
      rw [pow_mul]
      exact pow_le_pow_left₀ (by norm_num) (by norm_num) power
    have htwo : (2 : ℚ) ^ (53 + 971) ≤ 2 ^ (3 * power) := pow_le_pow_right₀ (by norm_num) (by omega)
    rw [pow_add, ← zpow_natCast 2 971, Nat.cast_ofNat] at htwo
    have hpos : (0 : ℚ) < 2 ^ (971 : ℤ) := by positivity
    generalize (2 : ℚ) ^ (971 : ℤ) = top at hle htwo hpos
    linarith
  obtain ⟨y, hy⟩ := Binary64.exists_ofScientific_eq_finite (hle.trans_lt (by gcongr; norm_num)) hpower
  have hten := (abs_le.1 (Binary64.abs_magnitude_sub_ten_pow_le hy)).2
  have hproduct : x.magnitude * y.magnitude < (2 ^ 53 - 1 / 2) * 2 ^ (971 : ℤ) := by
    have hx : x.magnitude ≤ v * (1 + 1 / 2 ^ 52) := by linarith [(abs_le.1 hmagnitude).2]
    have hy : y.magnitude ≤ 10 ^ power * (1 + 1 / 2 ^ 52) := by linarith
    calc x.magnitude * y.magnitude ≤ v * (1 + 1 / 2 ^ 52) * (10 ^ power * (1 + 1 / 2 ^ 52)) := by
          gcongr
          exact y.magnitude_nonneg
      _ = v * 10 ^ power * (1 + 1 / 2 ^ 52) ^ 2 := by ring
      _ ≤ (2 ^ 53 - 5) * 2 ^ (971 : ℤ) * (1 + 1 / 2 ^ 52) ^ 2 := by gcongr
      _ = (2 ^ 53 - 5) * (1 + 1 / 2 ^ 52) ^ 2 * 2 ^ (971 : ℤ) := by ring
      _ < (2 ^ 53 - 1 / 2) * 2 ^ (971 : ℤ) := by
        gcongr
        norm_num
  rw [← magnitude_mul_eq_div] at hproduct
  simp only [timesPowerOfTen, hy]
  exact Binary64.exists_ofRatio_eq_finite x.negative (by positivity) hproduct

/-- A quotient by a power of ten stays finite. -/
theorem exists_overPowerOfTen_eq_finite (power : ℕ) (hmagnitude : x.magnitude ≤ 2 ^ 100) :
    ∃ y, x.overPowerOfTen power = .finite y ∧ y.magnitude ≤ 4 * x.magnitude + 1 := by
  unfold overPowerOfTen
  split
  · next y hy =>
    have hten := (abs_le.1 (Binary64.abs_magnitude_sub_ten_pow_le hy)).1
    have hone : (1 : ℚ) ≤ 10 ^ power := one_le_pow₀ (by norm_num)
    have hhalf : 1 / 2 ≤ y.magnitude := by
      norm_num at hten ⊢
      linarith
    have hsignificand : 0 < y.significand := by
      rcases Nat.eq_zero_or_pos y.significand with hzero | hpos
      · norm_num [magnitude, hzero] at hhalf
      · exact hpos
    have hden : 0 < y.significand * 2 ^ (-(x.exponent - y.exponent)).toNat := by positivity
    have hquotient : x.magnitude / y.magnitude ≤ 2 * x.magnitude := by
      rw [div_le_iff₀ (by linarith)]
      nlinarith [x.magnitude_nonneg]
    have hlimit : x.magnitude / y.magnitude < (2 ^ 53 - 1 / 2) * 2 ^ (971 : ℤ) := by
      have hpow : (2 : ℚ) ^ (100 : ℕ) ≤ 2 ^ (971 : ℤ) := by
        rw [← zpow_natCast]
        exact zpow_le_zpow_right₀ (by norm_num) (by norm_num)
      generalize (2 : ℚ) ^ (971 : ℤ) = top at hpow ⊢
      linarith
    rw [← magnitude_div_eq_div] at hlimit
    obtain ⟨z, hz⟩ := Binary64.exists_ofRatio_eq_finite x.negative hden hlimit
    have hmoved := (abs_le.1 (Binary64.abs_magnitude_sub_le hden hz)).2
    have htiny : (2 : ℚ) ^ (-1075 : ℤ) ≤ 2 ^ (0 : ℤ) := zpow_le_zpow_right₀ (by norm_num) (by norm_num)
    rw [magnitude_div_eq_div] at hmoved
    refine ⟨z, hz, ?_⟩
    have hpos : 0 ≤ x.magnitude / y.magnitude := div_nonneg x.magnitude_nonneg y.magnitude_nonneg
    generalize (2 : ℚ) ^ (-1075 : ℤ) = tiny at hmoved htiny
    rw [zpow_zero] at htiny
    linarith
  · refine ⟨⟨x.negative, 0, by decide⟩, rfl, ?_⟩
    rw [magnitude_eq_zero rfl]
    linarith [x.magnitude_nonneg]

end Finite64

namespace LeadingDigits

/-- The number that leading digits write. -/
def value (d : LeadingDigits) : ℚ := d.coefficient * 10 ^ d.exponent

/-- Leading digits are read as a finite number where they do not write one that is nearly as large as the largest. -/
theorem exists_toBinary64_eq_finite (negative : Bool) {d : LeadingDigits}
    (h : d.value ≤ Finite64.readingLimit) : ∃ x, d.toBinary64 negative = .finite x := by
  have hnear := Finite64.ofRatio_one negative d.coefficient d.inRange
  unfold toBinary64
  generalize Finite64.ofNat negative d.coefficient d.inRange = x at hnear
  simp only
  split
  · exact ⟨x, rfl⟩
  · next hzero =>
    have hone : (1 : ℚ) ≤ d.coefficient := by
      rcases Nat.eq_zero_or_pos d.coefficient with hcoefficient | hpos
      · rw [hcoefficient] at hnear
        obtain rfl := Binary64.finite.inj hnear
        exact absurd rfl hzero
      · exact_mod_cast hpos
    have hmagnitude : |x.magnitude - d.coefficient| ≤ d.coefficient / 2 ^ 52 := by
      simpa using Binary64.abs_magnitude_sub_le_of_one_le (by norm_num) (by simpa using hone) hnear
    split
    · next hexponent =>
      have hpow : (10 : ℚ) ^ d.exponent.toNat = 10 ^ d.exponent := by
        rw [← zpow_natCast, Int.toNat_of_nonneg hexponent]
      refine Finite64.exists_timesPowerOfTen_eq_finite hone hmagnitude ?_
      rw [hpow]
      exact h
    · have hsmall : x.magnitude ≤ 2 ^ 65 := by
        have hlt : (d.coefficient : ℚ) < 2 ^ 64 := by exact_mod_cast d.inRange
        linarith [(abs_le.1 hmagnitude).2]
      obtain ⟨y, hy, hless⟩ := Finite64.exists_overPowerOfTen_eq_finite (-d.exponent).toNat (hsmall.trans (by norm_num))
      obtain ⟨z, hz, hlast⟩ := Finite64.exists_overPowerOfTen_eq_finite maxPower (hsmall.trans (by norm_num))
      obtain ⟨w, hw, -⟩ := @Finite64.exists_overPowerOfTen_eq_finite z ((-d.exponent).toNat - maxPower) (by
        norm_num at hsmall hlast ⊢
        linarith)
      split
      · exact ⟨y, hy⟩
      · rw [hz]
        exact ⟨w, hw⟩

end LeadingDigits

end TradeIn
