import TradeIn.Number.Rounding

/-!
# Binary64 numbers

A finite binary64 number is a sign and a rank, its position among the non-negative finite numbers in
increasing order. Every rank below `2047 * 2 ^ 52` names a number, so the type has no invalid values and
the order of the magnitudes is the order of the ranks. The value is `± significand * 2 ^ exponent`.

`Binary64.ofRatio` rounds an exact quotient to the nearest number, a tie going to the even significand.
-/

namespace TradeIn

/-- A finite binary64 number. -/
structure Finite64 where
  /-- Whether the number has a minus sign; zero has one of each sign. -/
  negative : Bool
  /-- The position of the magnitude among all finite magnitudes, from zero upwards. -/
  rank : Fin (2047 * 2 ^ 52)
  deriving DecidableEq, Repr

namespace Finite64

/-- Zero without a minus sign. -/
def zero : Finite64 := ⟨false, ⟨0, by decide⟩⟩

instance : Inhabited Finite64 := ⟨zero⟩

/-- The exponent field, which counts the binades below the number. -/
def exponentField (x : Finite64) : Nat := x.rank.val / 2 ^ 52

/-- The whole number that the magnitude is a power of two times of. -/
def significand (x : Finite64) : Nat :=
  if x.rank.val < 2 ^ 52 then x.rank.val else 2 ^ 52 + x.rank.val % 2 ^ 52

/-- The power of two by which the significand is multiplied. The lowest two binades share a power. -/
def exponent (x : Finite64) : Int := (max x.exponentField 1 : Nat) - 1075

/-- Whether the number is zero, of either sign. -/
def isZero (x : Finite64) : Bool := x.rank.val == 0

/-- Numeric equality, under which the two zeros are equal. -/
def sameValue (x y : Finite64) : Bool :=
  x.rank == y.rank && (x.negative == y.negative || x.isZero)

/-- Whether the magnitude is below `2 ^ 63`, the first whole number past the signed 64-bit range. -/
def belowTwoPow63 (x : Finite64) : Bool := x.rank.val < 1086 * 2 ^ 52

end Finite64

/-- The power of two whose multiples are the binary64 numbers around `num / den`. -/
def binaryGrid (num den : Nat) : Int :=
  let guess : Int := (num.log2 : Int) - den.log2 - 52
  let grid := if num * 2 ^ (-guess).toNat < den * 2 ^ guess.toNat * 2 ^ 52 then guess - 1 else guess
  max grid (-1074)

/-- The rank nearest to `num / den`, which overflows if it is not below `2047 * 2 ^ 52`. -/
def nearestRank (num den : Nat) : Nat :=
  if num = 0 then 0
  else
    let grid := binaryGrid num den
    (grid + 1074).toNat * 2 ^ 52 + divHalfEven (num * 2 ^ (-grid).toNat) (den * 2 ^ grid.toNat)

/-- A binary64 number: finite, infinite, or not a number. -/
inductive Binary64 where
  | finite (x : Finite64)
  | infinite (negative : Bool)
  | nan
  deriving DecidableEq, Repr

namespace Binary64

instance : Inhabited Binary64 := ⟨.finite .zero⟩

/-- The number itself if it is finite. -/
def finite? : Binary64 → Option Finite64
  | finite x => some x
  | _ => none

/-- The binary64 number nearest to `± num / den`; a tie goes to the even significand. -/
def ofRatio (negative : Bool) (num den : Nat) : Binary64 :=
  if h : nearestRank num den < 2047 * 2 ^ 52 then .finite ⟨negative, nearestRank num den, h⟩
  else .infinite negative

/-- The binary64 number nearest to `± coefficient * 10 ^ exponent`. Far outside the range the answer is
known without computing the power. -/
def ofScientific (negative : Bool) (coefficient : Nat) (exponent : Int) : Binary64 :=
  if coefficient = 0 then .finite ⟨negative, 0, by decide⟩
  else if exponent > 400 then .infinite negative
  else if exponent < -400 - (coefficient.log2 : Int) then .finite ⟨negative, 0, by decide⟩
  else ofRatio negative (coefficient * 10 ^ exponent.toNat) (10 ^ (-exponent).toNat)

end Binary64

/-- The grid of a positive whole number lies at most one below its own leading bit. -/
theorem binaryGrid_one_bounds (n : Nat) (h : n.log2 < 1000) :
    (n.log2 : Int) - 53 ≤ binaryGrid n 1 ∧ binaryGrid n 1 ≤ n.log2 - 52 := by
  have hone : Nat.log2 1 = 0 := by decide
  simp only [binaryGrid, hone]
  split <;> omega

/-- Whole numbers of at most 64 bits are far inside the finite range. -/
theorem nearestRank_one_lt {n : Nat} (h : n < 2 ^ 64) : nearestRank n 1 < 2047 * 2 ^ 52 := by
  unfold nearestRank
  split
  · decide
  · next hn =>
    have hlog : n.log2 < 64 := (Nat.log2_lt hn).2 h
    have hlt : n < 2 ^ (n.log2 + 1) := Nat.lt_log2_self
    obtain ⟨hlow, hhigh⟩ := binaryGrid_one_bounds n (by omega)
    generalize binaryGrid n 1 = grid at hlow hhigh
    have hscaled : n * 2 ^ (-grid).toNat < 2 ^ grid.toNat * 2 ^ 54 := by
      calc n * 2 ^ (-grid).toNat
          < 2 ^ (n.log2 + 1) * 2 ^ (-grid).toNat := Nat.mul_lt_mul_of_pos_right hlt (Nat.two_pow_pos _)
        _ = 2 ^ (n.log2 + 1 + (-grid).toNat) := (Nat.pow_add ..).symm
        _ ≤ 2 ^ (grid.toNat + 54) := Nat.pow_le_pow_right (by decide) (by omega)
        _ = 2 ^ grid.toNat * 2 ^ 54 := Nat.pow_add ..
    have hquot := Nat.div_lt_of_lt_mul hscaled
    have hround := divHalfEven_le (n * 2 ^ (-grid).toNat) (1 * 2 ^ grid.toNat)
    rw [Nat.one_mul] at hround
    simp only [Nat.one_mul]
    have hgrid : (grid + 1074).toNat ≤ 1085 := by omega
    omega

/-- The binary64 number nearest to a whole number of at most 64 bits. -/
def Finite64.ofNat (negative : Bool) (n : Nat) (h : n < 2 ^ 64) : Finite64 :=
  ⟨negative, nearestRank n 1, nearestRank_one_lt h⟩

end TradeIn
