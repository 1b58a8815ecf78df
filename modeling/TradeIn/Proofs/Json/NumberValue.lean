import TradeIn.Json.Comparison
import TradeIn.Proofs.Number.Representable

/-!
# What numbers in JSON stand for

A whole number stands for itself, and any other number for a rational one. Rounding to a binary64 number keeps every
number that some binary64 number equals. The comparison that conditions use is meant to find numbers equal that stand
for the same number. It does find all of these, and among signed 64-bit integers no others; any other two numbers are
compared after rounding, so that two different ones may be taken for each other (`Number.IsTakenFor`).
-/

namespace TradeIn.Number

variable {m n p : Number}

/-- The number that a JSON number stands for. -/
def value : Number → ℚ
  | integer n _ => n
  | binary x => x.value

/-- A whole number that a signed 64-bit integer can hold. -/
def IsSigned64 (n : Number) : Prop := n.int64?.isSome = true

/-- Two different numbers, not both of them signed 64-bit integers, of which the nearest binary64 numbers are equal. -/
def IsTakenFor (m n : Number) : Prop :=
  m.value ≠ n.value ∧ ¬(m.IsSigned64 ∧ n.IsSigned64) ∧ m.toFinite64.value = n.toFinite64.value

/-- A whole number without its sign has at most 64 bits. -/
theorem natAbs_lt_of_inRange {v : ℤ} (inRange : -2 ^ 63 ≤ v ∧ v < 2 ^ 64) : v.natAbs < 2 ^ 64 := by omega

/-- The nearest binary64 number to a whole number has its sign. -/
theorem value_toFinite64_integer (v : ℤ) (inRange : -2 ^ 63 ≤ v ∧ v < 2 ^ 64) :
    (integer v inRange).toFinite64.value =
      (if v < 0 then -1 else 1) * (Finite64.ofNat (v < 0) v.natAbs (natAbs_lt_of_inRange inRange)).magnitude := by
  rw [toFinite64, Finite64.value_eq_sign_mul]
  simp [Finite64.ofNat]

/-- A whole number keeps its value when its magnitude is rounded to itself. -/
theorem value_toFinite64_integer_of_magnitude {v : ℤ} {inRange : -2 ^ 63 ≤ v ∧ v < 2 ^ 64}
    (h : (Finite64.ofNat (v < 0) v.natAbs (natAbs_lt_of_inRange inRange)).magnitude = v.natAbs) :
    (integer v inRange).toFinite64.value = v := by
  rw [value_toFinite64_integer, h]
  rcases lt_or_ge v 0 with hneg | hnonneg
  · rw [if_pos hneg, Nat.cast_natAbs, abs_of_neg hneg]
    push_cast
    ring
  · rw [if_neg (by omega), Nat.cast_natAbs, abs_of_nonneg hnonneg, one_mul]

/-- A number that some binary64 number equals is rounded to itself. -/
theorem value_toFinite64_of_eq {x : Finite64} (h : x.value = n.value) : n.toFinite64.value = n.value := by
  cases n with
  | binary y => rfl
  | integer v inRange =>
    have hmagnitude : x.magnitude = v.natAbs := by
      have hvalue : x.value = v := h
      rw [Nat.cast_natAbs, Int.cast_abs, ← hvalue, Finite64.abs_value]
    exact value_toFinite64_integer_of_magnitude
      (Finite64.magnitude_ofNat_of_eq (natAbs_lt_of_inRange inRange) hmagnitude)

/-- A number below `2 ^ 53` is rounded to itself. -/
theorem value_toFinite64_of_abs_lt (h : |n.value| < 2 ^ 53) : n.toFinite64.value = n.value := by
  cases n with
  | binary y => rfl
  | integer v inRange =>
    have hlt : v.natAbs < 2 ^ 53 := by
      have habs : ((v.natAbs : ℕ) : ℚ) < 2 ^ 53 := by
        rw [Nat.cast_natAbs, Int.cast_abs]
        exact h
      exact_mod_cast habs
    exact value_toFinite64_integer_of_magnitude (Finite64.magnitude_ofNat_of_lt hlt)

/-- Equal numbers are rounded alike. -/
theorem value_toFinite64_congr (h : m.value = n.value) : m.toFinite64.value = n.toFinite64.value := by
  cases m with
  | binary x => exact h.trans (value_toFinite64_of_eq h).symm
  | integer v inRange =>
    cases n with
    | binary y => exact (value_toFinite64_of_eq h.symm).trans h
    | integer w inRange' =>
      obtain rfl : v = w := by exact_mod_cast (show (v : ℚ) = w from h)
      rfl

/-- The value of a signed 64-bit integer. -/
theorem value_of_int64? {a : Int64} (h : n.int64? = some a) : n.value = a.toInt := by
  cases n with
  | binary x => cases h
  | integer v inRange =>
    simp only [int64?, Option.ite_none_right_eq_some, Option.some.injEq] at h
    obtain ⟨hlt, rfl⟩ := h
    rw [value, Int64.toInt_ofInt_of_le (by omega) (by omega)]

/-- Numbers are equal as conditions see it when they stand for the same number, or when one is taken for the other. -/
theorem sameValue_iff (m n : Number) : m.sameValue n = true ↔ m.value = n.value ∨ m.IsTakenFor n := by
  have hrounded : m.toFinite64.sameValue n.toFinite64 = true ↔ m.toFinite64.value = n.toFinite64.value :=
    Finite64.sameValue_iff _ _
  have hcongr : m.value = n.value → m.toFinite64.value = n.toFinite64.value := value_toFinite64_congr
  unfold sameValue IsTakenFor IsSigned64
  cases hm : m.int64? with
  | none =>
    simp only [hrounded, Option.isSome_none, Bool.false_eq_true, false_and, not_false_eq_true, true_and]
    tauto
  | some a =>
    cases hn : n.int64? with
    | none =>
      simp only [hrounded, Option.isSome_none, Bool.false_eq_true, and_false, not_false_eq_true, true_and]
      tauto
    | some b =>
      have hvalues : m.value = n.value ↔ a = b := by
        rw [value_of_int64? hm, value_of_int64? hn, Int.cast_inj, Int64.toInt_inj]
      simp [hvalues]

/-- Equality as conditions see it has no direction. -/
theorem sameValue_comm (m n : Number) : m.sameValue n = n.sameValue m := by
  rw [Bool.eq_iff_iff, sameValue_iff, sameValue_iff, IsTakenFor, IsTakenFor, eq_comm (a := m.value), ne_comm,
    and_comm (a := m.IsSigned64), eq_comm (a := m.toFinite64.value)]

/-- Numbers that are equal as conditions see it are rounded alike. -/
theorem value_toFinite64_of_sameValue (h : m.sameValue n = true) : m.toFinite64.value = n.toFinite64.value := by
  rcases (sameValue_iff m n).1 h with hvalue | ⟨-, -, hrounded⟩
  · exact value_toFinite64_congr hvalue
  · exact hrounded

/-- Two numbers that are equal to a third one, as conditions see it, are equal to each other unless they are different
signed 64-bit integers. -/
theorem sameValue_iff_of_sameValue (hmn : m.sameValue n = true) (hnp : n.sameValue p = true) :
    m.sameValue p = true ↔ (m.IsSigned64 → p.IsSigned64 → m.value = p.value) := by
  have hrounded : m.toFinite64.value = p.toFinite64.value :=
    (value_toFinite64_of_sameValue hmn).trans (value_toFinite64_of_sameValue hnp)
  rw [sameValue_iff]
  constructor
  · rintro (hvalue | ⟨-, hnot, -⟩) hm hp
    · exact hvalue
    · exact absurd ⟨hm, hp⟩ hnot
  · intro h
    by_cases hvalue : m.value = p.value
    · exact .inl hvalue
    · exact .inr ⟨hvalue, fun ⟨hm, hp⟩ => hvalue (h hm hp), hrounded⟩

/-- Numbers below `2 ^ 53` are not taken for each other. -/
theorem not_isTakenFor_of_abs_lt (hm : |m.value| < 2 ^ 53) (hn : |n.value| < 2 ^ 53) : ¬m.IsTakenFor n := by
  rintro ⟨hne, -, hrounded⟩
  rw [value_toFinite64_of_abs_lt hm, value_toFinite64_of_abs_lt hn] at hrounded
  exact hne hrounded

end TradeIn.Number
