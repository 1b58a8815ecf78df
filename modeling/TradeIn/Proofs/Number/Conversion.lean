import TradeIn.Proofs.Number.Representable

/-!
# Conversion by loops

A binary64 number `± significand * 2 ^ exponent` is `± significand * 5 ^ -exponent * 10 ^ exponent` as well. Loops move the
fives into the coefficient or out of it and bring the tens to at most 28 places; two of them can refuse the number.
`Decimal.ofFinite64?` gives the same decimals: no number with places is refused on the way, and a whole number is refused
exactly when it has no room in 96 bits.
-/

namespace TradeIn

namespace Finite64

/-- The rank says below which power of two a number lies. -/
theorem rank_lt_iff (x : Finite64) (k : ℕ) : x.rank.val < (k + 1023) * 2 ^ 52 ↔ |x.value| < 2 ^ k := by
  rw [abs_value, magnitude, ← zpow_natCast]
  have hrank := x.rank_eq
  have hsignificand := x.significand_lt
  obtain ⟨hlowest, hnormal⟩ := x.exponent_spec
  constructor
  · intro h
    have hexponent : x.exponent ≤ k - 53 := by omega
    have hbits : (x.significand : ℚ) < 2 ^ (53 : ℤ) := by exact_mod_cast hsignificand
    calc (x.significand : ℚ) * 2 ^ x.exponent
        < 2 ^ (53 : ℤ) * 2 ^ x.exponent := by gcongr
      _ ≤ 2 ^ (53 : ℤ) * 2 ^ ((k : ℤ) - 53) := by gcongr; norm_num
      _ = 2 ^ (k : ℤ) := by rw [← zpow_add₀ (by norm_num), add_sub_cancel]
  · intro h
    by_contra hlarge
    have hexponent : (k : ℤ) - 52 ≤ x.exponent := by omega
    have hbits : (2 : ℚ) ^ (52 : ℤ) ≤ x.significand := by
      have hbits : 2 ^ 52 ≤ x.significand := by omega
      exact_mod_cast hbits
    refine h.not_ge ?_
    calc (2 : ℚ) ^ (k : ℤ) = 2 ^ (52 : ℤ) * 2 ^ ((k : ℤ) - 52) := by rw [← zpow_add₀ (by norm_num), add_sub_cancel]
      _ ≤ x.significand * 2 ^ x.exponent := by gcongr; norm_num

end Finite64

namespace Decimal

/-- Multiply the coefficient by five, `fives` times. An even coefficient gives a two instead, which makes a ten; an odd one
that has no room in 96 bits is halved downwards for it. -/
def multiplyFives : (fives coefficient : Nat) → (tens : Int) → Nat × Int
  | 0, coefficient, tens => (coefficient, tens)
  | fives + 1, coefficient, tens =>
    if coefficient % 2 = 0 then multiplyFives fives (coefficient / 2) (tens + 1)
    else if coefficient * 5 < 2 ^ 96 then multiplyFives fives (coefficient * 5) tens
    else multiplyFives fives (coefficient / 2) (tens + 1)

/-- Divide the coefficient by five, `fives` times. As long as 96 bits have room it is doubled instead, at the cost of a ten;
after that too many tens that are left refuse the number. -/
def divideFives? : (fives coefficient : Nat) → (tens : Int) → Option (Nat × Int)
  | 0, coefficient, tens => some (coefficient, tens)
  | fives + 1, coefficient, tens =>
    if coefficient < 2 ^ 95 then divideFives? fives (coefficient * 2) (tens - 1)
    else if (fives + 1 : Int) < 2 * tens then none
    else divideFives? fives (coefficient / 5) tens

/-- Multiply the coefficient by ten, `tens` times, in 96 bits. -/
def multiplyTens? : (tens coefficient : Nat) → Option Nat
  | 0, coefficient => some coefficient
  | tens + 1, coefficient => if coefficient * 10 < 2 ^ 96 then multiplyTens? tens (coefficient * 10) else none

/-- The coefficient and the scale for `significand * 2 ^ exponent`. -/
def convert? (significand : Nat) (exponent : Int) : Option (Nat × Nat) := do
  let (coefficient, tens) := multiplyFives (-exponent).toNat significand exponent
  let (coefficient, tens) ← divideFives? exponent.toNat coefficient tens
  let coefficient ← multiplyTens? tens.toNat coefficient
  let (coefficient, scale) := toTwentyEightPlaces coefficient (-tens).toNat
  let (coefficient, scale) := toBinaryPrecision coefficient scale
  return dropTrailingZeros coefficient scale

/-- The decimal of a binary64 number by loops. -/
def byLoops? (x : Finite64) : Option Decimal :=
  if x.isZero then mk? x.negative (0, 0) else (convert? x.significand x.exponent).bind (mk? x.negative)

/-- With enough places there are no tens left over, and the places are the tens without their sign. -/
theorem multiplyFives_eq (coefficient : Nat) {halvings scale : Nat} (h : halvings ≤ scale) :
    multiplyFives halvings coefficient (-scale) =
      ((tradeHalvings halvings coefficient scale).1, -((tradeHalvings halvings coefficient scale).2 : Int)) := by
  induction halvings generalizing coefficient scale with
  | zero => rfl
  | succ halvings ih =>
    have hplace : (-scale : Int) + 1 = -((scale - 1 : Nat) : Int) := by omega
    rw [multiplyFives, tradeHalvings, Nat.mul_comm 5, hplace, ih _ (by omega), ih _ (by omega)]
    split
    · rfl
    · split <;> rfl

/-- While 96 bits have room, only twos are multiplied in, and all tens are used up. -/
theorem divideFives?_eq_some {fives coefficient : Nat} (h : coefficient * 2 ^ fives < 2 ^ 96) :
    divideFives? fives coefficient fives = some (coefficient * 2 ^ fives, 0) := by
  induction fives generalizing coefficient with
  | zero => simp [divideFives?]
  | succ fives ih =>
    have hpow : coefficient * 2 ^ (fives + 1) = coefficient * 2 * 2 ^ fives := by ring
    have hle : coefficient * 2 ≤ coefficient * 2 * 2 ^ fives := Nat.le_mul_of_pos_right _ (Nat.two_pow_pos fives)
    have htens : ((fives + 1 : Nat) : Int) - 1 = fives := by omega
    rw [divideFives?, if_pos (by omega), htens, ih (by omega), hpow]

/-- Without room the first division by five is refused, since as many tens are left as fives. -/
theorem divideFives?_eq_none {fives coefficient : Nat} (hroom : coefficient < 2 ^ 96)
    (h : 2 ^ 96 ≤ coefficient * 2 ^ fives) : divideFives? fives coefficient fives = none := by
  induction fives generalizing coefficient with
  | zero => omega
  | succ fives ih =>
    have hpow : coefficient * 2 ^ (fives + 1) = coefficient * 2 * 2 ^ fives := by ring
    have htens : ((fives + 1 : Nat) : Int) - 1 = fives := by omega
    rw [divideFives?, htens]
    split
    · exact ih (by omega) (by omega)
    · rw [if_pos (by omega)]

/-- A number with places is converted as `ofHalvings` says. -/
theorem convert?_of_neg (significand : Nat) {exponent : Int} (h : exponent < 0) :
    convert? significand exponent = some (ofHalvings significand (-exponent).toNat) := by
  have hexponent : exponent = -((-exponent).toNat : Int) := by omega
  have hloop := multiplyFives_eq significand (le_refl (-exponent).toNat)
  rw [← hexponent] at hloop
  simp only [convert?, hloop, Int.toNat_of_nonpos h.le, divideFives?, Int.toNat_neg_natCast, multiplyTens?, neg_neg,
    Int.toNat_natCast, ofHalvings, Option.bind_eq_bind, Option.bind_some, Option.pure_def]

/-- A whole number is converted exactly, if it has room in 96 bits. -/
theorem convert?_of_nonneg {significand : Nat} (hbits : significand < 2 ^ 96) {exponent : Int} (h : 0 ≤ exponent) :
    convert? significand exponent =
      if significand * 2 ^ exponent.toNat < 2 ^ 96 then some (significand * 2 ^ exponent.toNat, 0) else none := by
  obtain ⟨fives, rfl⟩ := Int.eq_ofNat_of_zero_le h
  simp only [convert?, Int.toNat_neg_natCast, multiplyFives, Int.toNat_natCast]
  split
  · next hroom =>
    simp only [divideFives?_eq_some hroom, Option.bind_eq_bind, Option.bind_some, Int.toNat_zero, multiplyTens?, neg_zero,
      toTwentyEightPlaces, toBinaryPrecision, dropTrailingZeros, Option.pure_def]
  · next hroom => simp only [divideFives?_eq_none hbits (not_lt.1 hroom), Option.bind_eq_bind, Option.bind_none]

/-- The loops give the decimal of every binary64 number. -/
theorem byLoops?_eq (x : Finite64) : byLoops? x = ofFinite64? x := by
  rw [byLoops?, ofFinite64?]
  split
  · rfl
  · split
    · next hexponent =>
      rw [convert?_of_nonneg (x.significand_lt.trans (by decide)) hexponent]
      split
      · rfl
      · next hroom => simp [mk?, hroom]
    · next hexponent => rw [convert?_of_neg _ (not_le.1 hexponent), Option.bind_some]

/-- A coefficient in 96 bits stays there while halvings are traded. -/
theorem tradeHalvings_fst_lt (halvings : Nat) {coefficient : Nat} (scale : Nat) (h : coefficient < 2 ^ 96) :
    (tradeHalvings halvings coefficient scale).1 < 2 ^ 96 := by
  induction halvings generalizing coefficient scale with
  | zero => exact h
  | succ halvings ih =>
    rw [tradeHalvings]
    split
    · exact ih _ (by omega)
    · split
      · next hroom => exact ih _ hroom
      · exact ih _ (by omega)

/-- A digit that is dropped leaves a coefficient in 96 bits. -/
theorem dropDigit_lt {coefficient : Nat} (h : coefficient < 2 ^ 96) : dropDigit coefficient < 2 ^ 96 := by
  rw [dropDigit]
  split <;> omega

/-- Any number of places is brought to at most 28. -/
theorem toTwentyEightPlaces_inRange {coefficient : Nat} (scale : Nat) (h : coefficient < 2 ^ 96) :
    (toTwentyEightPlaces coefficient scale).1 < 2 ^ 96 ∧ (toTwentyEightPlaces coefficient scale).2 ≤ 28 := by
  induction scale generalizing coefficient with
  | zero => exact ⟨h, by simp [toTwentyEightPlaces]⟩
  | succ scale ih =>
    rw [toTwentyEightPlaces]
    split
    · next hscale => exact ⟨h, hscale⟩
    · split
      · exact ⟨by decide, Nat.zero_le 28⟩
      · exact ih (dropDigit_lt h)

/-- Rounding to the precision of a binary64 number leaves the range of decimals at no place. -/
theorem toBinaryPrecision_inRange {coefficient scale : Nat} (hcoefficient : coefficient < 2 ^ 96) (hscale : scale ≤ 28) :
    (toBinaryPrecision coefficient scale).1 < 2 ^ 96 ∧ (toBinaryPrecision coefficient scale).2 ≤ 28 := by
  induction scale generalizing coefficient with
  | zero => exact ⟨hcoefficient, hscale⟩
  | succ scale ih =>
    rw [toBinaryPrecision]
    split
    · exact ⟨hcoefficient, hscale⟩
    · exact ih (dropDigit_lt hcoefficient) (by omega)

/-- Nor does dropping zeros. -/
theorem dropTrailingZeros_inRange {coefficient scale : Nat} (hcoefficient : coefficient < 2 ^ 96) (hscale : scale ≤ 28) :
    (dropTrailingZeros coefficient scale).1 < 2 ^ 96 ∧ (dropTrailingZeros coefficient scale).2 ≤ 28 := by
  induction scale generalizing coefficient with
  | zero => exact ⟨hcoefficient, hscale⟩
  | succ scale ih =>
    rw [dropTrailingZeros]
    split
    · exact ih (by omega) (by omega)
    · exact ⟨hcoefficient, hscale⟩

/-- No number with places is refused. -/
theorem ofHalvings_inRange {significand : Nat} (halvings : Nat) (h : significand < 2 ^ 96) :
    (ofHalvings significand halvings).1 < 2 ^ 96 ∧ (ofHalvings significand halvings).2 ≤ 28 := by
  have hplaced := toTwentyEightPlaces_inRange (tradeHalvings halvings significand halvings).2
    (tradeHalvings_fst_lt halvings halvings h)
  have hprecise := toBinaryPrecision_inRange hplaced.1 hplaced.2
  exact dropTrailingZeros_inRange hprecise.1 hprecise.2

/-- Only what is out of range has no decimal. -/
theorem isSome_mk? (negative : Bool) (digits : Nat × Nat) :
    (mk? negative digits).isSome = true ↔ digits.1 < 2 ^ 96 ∧ digits.2 ≤ 28 := by
  rw [mk?]
  split
  · next h => simp [h]
  · next h => simp [h]

/-- Exactly the numbers below `2 ^ 96` have a decimal. -/
theorem isSome_ofFinite64?_iff (x : Finite64) : (ofFinite64? x).isSome = true ↔ |x.value| < 2 ^ 96 := by
  have hbits : x.significand < 2 ^ 96 := x.significand_lt.trans (by decide)
  rw [Finite64.abs_value, ofFinite64?]
  split
  · next hzero => simp [isSome_mk?, Finite64.magnitude_eq_zero_iff.2 hzero]
  · split
    · next hexponent =>
      obtain ⟨twos, htwos⟩ := Int.eq_ofNat_of_zero_le hexponent
      rw [isSome_mk?, Finite64.magnitude, htwos, Int.toNat_natCast, zpow_natCast]
      simp only [Nat.zero_le, and_true]
      exact_mod_cast Iff.rfl
    · next hexponent =>
      rw [isSome_mk?]
      refine iff_of_true (ofHalvings_inRange _ hbits) ?_
      have hpow : (2 : ℚ) ^ x.exponent ≤ 1 := zpow_le_one_of_nonpos₀ (by norm_num) (by omega)
      calc x.magnitude ≤ x.significand * 1 := by rw [Finite64.magnitude]; gcongr
        _ < 2 ^ 96 := by rw [mul_one]; exact_mod_cast hbits

end Decimal

end TradeIn
