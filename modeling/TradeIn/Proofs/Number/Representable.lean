import TradeIn.Proofs.Number.Nearest

/-!
# Numbers that need no rounding

Every magnitude has one rank, so numeric equality of binary64 numbers is equality of the numbers they stand for. A whole
number that is a binary64 number already is rounded to itself; so is every whole number below `2 ^ 53`.
-/

namespace TradeIn.Finite64

variable {x y : Finite64} {n : ℕ}

/-- The value is the magnitude with the sign. -/
theorem value_eq_sign_mul (x : Finite64) : x.value = (if x.negative then -1 else 1) * x.magnitude := rfl

/-- The magnitude is the value without the sign. -/
theorem abs_value (x : Finite64) : |x.value| = x.magnitude := by
  rw [value_eq_sign_mul, abs_mul, abs_of_nonneg x.magnitude_nonneg]
  split <;> simp

/-- Below the lowest binade there are no finer steps, and above it a significand has all its 53 bits. -/
theorem exponent_spec (x : Finite64) : -1074 ≤ x.exponent ∧ (x.exponent = -1074 ∨ 2 ^ 52 ≤ x.significand) := by
  have hfield : x.exponentField = x.rank.val / 2 ^ 52 := rfl
  unfold exponent significand
  split <;> omega

/-- A rank is put together from the exponent and the significand. -/
theorem rank_eq (x : Finite64) : x.rank.val = (x.exponent + 1074).toNat * 2 ^ 52 + x.significand := by
  have hfield : x.exponentField = x.rank.val / 2 ^ 52 := rfl
  unfold exponent significand
  split <;> omega

/-- A number with the larger exponent does not have the magnitude of one with a smaller exponent. -/
private theorem rank_eq_of_exponent_le (hle : x.exponent ≤ y.exponent) (h : x.magnitude = y.magnitude) :
    x.rank = y.rank := by
  obtain ⟨shift, hshift⟩ := Int.le.dest hle
  have hscaled : (x.significand : ℚ) = y.significand * 2 ^ shift := by
    rw [magnitude, magnitude, ← hshift, zpow_add₀ (by norm_num), zpow_natCast] at h
    have hpos : (0 : ℚ) < 2 ^ x.exponent := by positivity
    refine mul_right_cancel₀ hpos.ne' ?_
    rw [h]
    ring
  have hsignificand : x.significand = y.significand * 2 ^ shift := by exact_mod_cast hscaled
  have hlt := x.significand_lt
  obtain ⟨hlowest, -⟩ := x.exponent_spec
  obtain ⟨-, hnormal⟩ := y.exponent_spec
  have hrankx := x.rank_eq
  have hranky := y.rank_eq
  refine Fin.ext ?_
  cases shift with
  | zero =>
    have hexponent : x.exponent = y.exponent := by omega
    rw [hrankx, hranky, hexponent, hsignificand, pow_zero, Nat.mul_one]
  | succ shift =>
    have hdouble : y.significand * 2 ≤ x.significand := by
      rw [hsignificand, pow_succ']
      exact Nat.mul_le_mul_left _ (Nat.le_mul_of_pos_right 2 (Nat.two_pow_pos shift))
    omega

/-- Numbers of the same magnitude have the same rank. -/
theorem rank_eq_of_magnitude_eq (h : x.magnitude = y.magnitude) : x.rank = y.rank := by
  rcases le_total x.exponent y.exponent with hle | hle
  · exact rank_eq_of_exponent_le hle h
  · exact (rank_eq_of_exponent_le hle h.symm).symm

/-- Only a zero has no magnitude. -/
theorem magnitude_eq_zero_iff : x.magnitude = 0 ↔ x.isZero = true := by
  have hzero : x.isZero = true ↔ x.rank.val = 0 := by simp [isZero]
  rw [hzero]
  refine ⟨fun h => ?_, magnitude_eq_zero⟩
  have hrank : x.rank = zero.rank := rank_eq_of_magnitude_eq (h.trans (magnitude_eq_zero rfl).symm)
  exact congrArg Fin.val hrank

/-- Numeric equality is equality of the values. -/
theorem sameValue_iff (x y : Finite64) : x.sameValue y = true ↔ x.value = y.value := by
  have hx := x.magnitude_nonneg
  have hy := y.magnitude_nonneg
  have hrank : x.rank = y.rank ↔ x.magnitude = y.magnitude := by
    refine ⟨fun h => ?_, rank_eq_of_magnitude_eq⟩
    simp only [magnitude, significand, exponent, exponentField, h]
  simp only [sameValue, Bool.and_eq_true, Bool.or_eq_true, beq_iff_eq, hrank, ← magnitude_eq_zero_iff,
    value_eq_sign_mul]
  cases x.negative <;> cases y.negative <;> simp <;> grind

/-- A whole number of steps of its own grid is rounded to itself. -/
theorem magnitude_ofNat_of_eq_steps {negative : Bool} (h : n < 2 ^ 64) {k : ℕ}
    (hsteps : (n : ℚ) = k * 2 ^ binaryGrid n 1) : (ofNat negative n h).magnitude = n := by
  rcases Nat.eq_zero_or_pos n with rfl | hpos
  · exact magnitude_eq_zero rfl
  obtain ⟨-, -, hgrid⟩ := binaryGrid_spec hpos Nat.one_pos
  obtain ⟨steps, hrank, hhigh, hlow, hnearest⟩ := nearestRank_spec hpos Nat.one_pos
  rw [magnitude_of_rank (x := ofNat negative n h) hrank hgrid hhigh hlow]
  have hwhole : (n : ℚ) / (1 : ℕ) / 2 ^ binaryGrid n 1 = k := by
    rw [Nat.cast_one, div_one, hsteps, mul_div_cancel_right₀ _ (by positivity)]
  rw [hwhole] at hnearest
  have hequal : steps = k := by
    have hclose : |((steps : ℤ) - k : ℤ)| < 1 := by
      have hcast : ((|((steps : ℤ) - k : ℤ)| : ℤ) : ℚ) < 1 := by
        push_cast
        linarith
      exact_mod_cast hcast
    have hzero := Int.abs_lt_one_iff.1 hclose
    omega
  rw [hequal, ← hsteps]

/-- A whole number that is a binary64 number is rounded to itself. -/
theorem magnitude_ofNat_of_eq {negative : Bool} (h : n < 2 ^ 64) (hx : x.magnitude = n) :
    (ofNat negative n h).magnitude = n := by
  rcases Nat.eq_zero_or_pos n with rfl | hpos
  · exact magnitude_eq_zero rfl
  have hgrid : binaryGrid n 1 ≤ x.exponent := by
    obtain ⟨-, hlow, -⟩ := binaryGrid_spec hpos Nat.one_pos
    obtain ⟨hlowest, -⟩ := x.exponent_spec
    rcases hlow with hfinest | hlow
    · omega
    · have hsignificand : (x.significand : ℚ) < 2 ^ (53 : ℤ) := by exact_mod_cast x.significand_lt
      have hlt : (2 : ℚ) ^ (binaryGrid n 1 + 52) < 2 ^ (53 + x.exponent) := by
        rw [zpow_add₀ (by norm_num) 53, Nat.cast_one, div_one, ← hx, magnitude] at *
        exact hlow.trans_lt (by gcongr)
      have hexponent := (zpow_lt_zpow_iff_right₀ (by norm_num)).1 hlt
      omega
  obtain ⟨finer, hfiner⟩ := Int.le.dest hgrid
  refine magnitude_ofNat_of_eq_steps h (k := x.significand * 2 ^ finer) ?_
  rw [← hx, magnitude, ← hfiner, zpow_add₀ (by norm_num), zpow_natCast]
  push_cast
  ring

/-- A whole number below `2 ^ 53` is rounded to itself. -/
theorem magnitude_ofNat_of_lt {negative : Bool} (hlt : n < 2 ^ 53) :
    (ofNat negative n (hlt.trans (by decide))).magnitude = n := by
  rcases Nat.eq_zero_or_pos n with rfl | hpos
  · exact magnitude_eq_zero rfl
  have hgrid : binaryGrid n 1 ≤ 0 := by
    obtain ⟨-, hlow, -⟩ := binaryGrid_spec hpos Nat.one_pos
    rcases hlow with hfinest | hlow
    · omega
    · have hn : (n : ℚ) < 2 ^ (53 : ℤ) := by exact_mod_cast hlt
      rw [Nat.cast_one, div_one] at hlow
      have hexponent := (zpow_lt_zpow_iff_right₀ (by norm_num)).1 (hlow.trans_lt hn)
      omega
  obtain ⟨finer, hfiner⟩ := Int.le.dest hgrid
  refine magnitude_ofNat_of_eq_steps _ (k := n * 2 ^ finer) ?_
  have hone : (2 : ℚ) ^ finer * 2 ^ binaryGrid n 1 = 1 := by
    rw [← zpow_natCast, ← zpow_add₀ (by norm_num), Int.add_comm, hfiner, zpow_zero]
  push_cast
  rw [mul_assoc, hone, mul_one]

end TradeIn.Finite64
