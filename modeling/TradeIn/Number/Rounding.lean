/-!
# Rounding a quotient to a whole number

Both rules take a quotient of natural numbers and choose the nearer of its two whole neighbours. They
differ only on an exact half: `divHalfEven` goes to the even neighbour, `divHalfUp` to the larger one.
-/

-- A power with a natural exponent is the core one in every module, also beside a library of monoids.
attribute [instance (high), default_instance 20000] instPowNat

namespace TradeIn

/-- The whole number nearest to `num / den`; a half goes to the even neighbour. -/
def divHalfEven (num den : Nat) : Nat :=
  let quotient := num / den
  let remainder := num % den
  if 2 * remainder < den ∨ (2 * remainder = den ∧ quotient % 2 = 0) then quotient else quotient + 1

/-- The whole number nearest to `num / den`; a half goes to the larger neighbour. -/
def divHalfUp (num den : Nat) : Nat :=
  (2 * num + den) / (2 * den)

/-- Rounding to the even neighbour gives the quotient or its successor. -/
theorem divHalfEven_le (num den : Nat) : divHalfEven num den ≤ num / den + 1 := by
  simp only [divHalfEven]
  split <;> omega

/-- Rounding never goes below the quotient. -/
theorem le_divHalfEven (num den : Nat) : num / den ≤ divHalfEven num den := by
  simp only [divHalfEven]
  split <;> omega

/-- A whole quotient is left as it is. -/
theorem divHalfEven_mul_left (n den : Nat) (hden : 0 < den) : divHalfEven (den * n) den = n := by
  simp [divHalfEven, Nat.mul_mod_right, Nat.mul_div_cancel_left n hden, hden]

end TradeIn
