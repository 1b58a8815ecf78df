import TradeIn.Price.Calculation
import TradeIn.Proofs.Json.NumberLexing
import TradeIn.Proofs.Number.Closest
import TradeIn.Proofs.Number.Conversion

/-!
# Whole numbers as answers

An answer that is a whole number counts exactly if a signed 64-bit integer can hold it. Above that, and for every text, the
closest binary64 number counts in its place. The number and its digits in a text therefore count alike unless the number is
a signed 64-bit integer that is no binary64 number.
-/

namespace TradeIn

namespace Text

variable {before text after : String}

/-- No digit is blank. -/
theorem isBlank_of_isDigit {c : Char} (h : c.isDigit = true) : isBlank c = false := by
  have hzero : '0'.val.toNat = 48 := rfl
  have hnine : '9'.val.toNat = 57 := rfl
  simp only [Char.isDigit, Bool.and_eq_true, decide_eq_true_eq, ge_iff_le, UInt32.le_iff_toNat_le] at h
  simp only [isBlank, blankRanges, List.any_cons, List.any_nil, Bool.or_false, Bool.or_eq_false_iff,
    Bool.and_eq_false_iff, decide_eq_false_iff_not, UInt32.le_iff_toNat_le, UInt32.reduceToNat]
  omega

/-- Digits have no case. -/
theorem toLower_of_isDigit {c : Char} (h : c.isDigit = true) : c.toLower = c := by
  have hnine : '9'.val.toNat = 57 := rfl
  have hletter : 'A'.val.toNat = 65 := rfl
  simp only [Char.isDigit, Bool.and_eq_true, decide_eq_true_eq, ge_iff_le, UInt32.le_iff_toNat_le] at h
  refine dif_neg ?_
  simp only [ge_iff_le, UInt32.le_iff_toNat_le]
  omega

/-- Trimming takes away the blanks around a text without blanks. -/
theorem trim_append (hbefore : isAllBlank before = true) (hafter : isAllBlank after = true)
    (htext : ∀ c ∈ text.toList, isBlank c = false) : trim (before ++ text ++ after) = text := by
  have hfront : ∀ c ∈ before.toList, isBlank c = true := List.all_eq_true.1 hbefore
  have hback : ∀ c ∈ after.toList.reverse, isBlank c = true := by
    simpa using List.all_eq_true.1 hafter
  have hkept : ∀ {cs : List Char}, (∀ c ∈ cs, isBlank c = false) → cs.dropWhile isBlank = cs := by
    intro cs hcs
    cases cs with
    | nil => rfl
    | cons c cs => rw [List.dropWhile_cons_of_neg (by simp [hcs c])]
  rw [trim, trimChars, String.toList_append, String.toList_append, List.append_assoc,
    List.dropWhile_append_of_pos hfront]
  cases hcases : text.toList with
  | nil =>
    have hnil : after.toList.dropWhile isBlank = [] := by
      simpa using @List.dropWhile_append_of_pos Char isBlank after.toList [] (List.all_eq_true.1 hafter)
    rw [List.nil_append, hnil, ← String.ofList_toList (s := text), hcases]
    rfl
  | cons c cs =>
    have hc : isBlank c = false := htext c (by simp [hcases])
    rw [List.cons_append, List.dropWhile_cons_of_neg (by simp [hc]), ← List.cons_append, ← hcases, List.reverse_append,
      List.dropWhile_append_of_pos hback, hkept (by simpa using htext), List.reverse_reverse, String.ofList_toList]

/-- A whole number is written with a minus sign, if it is negative, and the digits of its magnitude. -/
theorem toList_toString (n : ℤ) :
    (toString n).toList = (if n < 0 then ['-'] else []) ++ (toString n.natAbs).toList := by
  cases n with
  | ofNat n => rfl
  | negSucc n =>
    have htext : toString (Int.negSucc n) = "-" ++ toString (n + 1) := rfl
    rw [htext, String.toList_append, if_pos (Int.negSucc_lt_zero n), Int.natAbs_negSucc]
    rfl

/-- A whole number is written without blanks. -/
theorem isBlank_of_mem_toString {n : ℤ} {c : Char} (h : c ∈ (toString n).toList) : isBlank c = false := by
  rw [toList_toString] at h
  rcases List.mem_append.1 h with hsign | hdigit
  · have hminus : c = '-' := by
      split at hsign <;> simp_all
    rw [hminus]
    decide
  · exact isBlank_of_isDigit (areDigits_toString _ c hdigit)

end Text

namespace Binary64

/-- Digits alone are read as the whole number that they write. -/
theorem ofUnsignedText?_of_areDigits (negative : Bool) {cs : List Char} (hdigits : Text.AreDigits cs) (hsome : cs ≠ []) :
    ofUnsignedText? negative cs = some (ofScientific negative (Text.digitsValue 0 cs) 0) := by
  obtain ⟨c, rest, rfl⟩ := List.exists_cons_of_ne_nil hsome
  have htake : (c :: rest).takeWhile Char.isDigit = c :: rest := by
    simpa using (Text.takeWhile_append_of_areDigits [] hdigits (by simp)).1
  have hdrop : (c :: rest).dropWhile Char.isDigit = [] := by
    simpa using (Text.takeWhile_append_of_areDigits [] hdigits (by simp)).2
  have hc : c.isDigit = true := hdigits c List.mem_cons_self
  have hletter : ∀ letter : Char, letter.isDigit = false → c.toLower ≠ letter := by
    rintro letter hnot rfl
    rw [Text.toLower_of_isDigit hc, hc] at hnot
    cases hnot
  -- A digit is the first letter of none of the three words.
  have hi : c.toLower ≠ 'i' := hletter 'i' (by decide)
  have hn : c.toLower ≠ 'n' := hletter 'n' (by decide)
  simp [ofUnsignedText?, hi, hn, htake, hdrop, ofDigits]

/-- A text that begins with a digit has no sign. -/
theorem ofText?_of_isDigit {s : String} {c : Char} {cs : List Char} (htext : s.toList = c :: cs)
    (hc : c.isDigit = true) : ofText? s = ofUnsignedText? false (c :: cs) := by
  rw [ofText?, htext]
  split <;> simp_all

/-- The digits of a whole number are read as the binary64 number closest to it. -/
theorem ofText?_toString (n : ℤ) (inRange : -2 ^ 63 ≤ n ∧ n < 2 ^ 64) :
    ofText? (toString n) = some (.finite (Number.integer n inRange).toFinite64) := by
  have hdigits := Text.areDigits_toString n.natAbs
  have hread : ∀ negative, ofUnsignedText? negative (toString n.natAbs).toList =
      some (.finite (Finite64.ofNat negative n.natAbs (Number.natAbs_lt_of_inRange inRange))) := by
    intro negative
    rw [ofUnsignedText?_of_areDigits negative hdigits (Text.toString_ne_nil _), Text.digitsValue_toString, ofScientific]
    split
    · next hzero => simp [Finite64.ofNat, hzero, nearestRank]
    · rw [if_neg (by decide), if_neg (by omega), ← Finite64.ofRatio_one]
      simp
  have htext := Text.toList_toString n
  rcases lt_or_ge n 0 with hneg | hnonneg
  · rw [if_pos hneg, List.singleton_append] at htext
    rw [ofText?, htext, Number.toFinite64, decide_eq_true hneg]
    exact hread true
  · rw [if_neg hnonneg.not_gt, List.nil_append] at htext
    obtain ⟨c, cs, hcs⟩ := List.exists_cons_of_ne_nil (Text.toString_ne_nil n.natAbs)
    have hc : c.isDigit = true := hdigits c (hcs ▸ List.mem_cons_self)
    rw [ofText?_of_isDigit (htext.trans hcs) hc, ← hcs, hread, Number.toFinite64, decide_eq_false hnonneg.not_gt]

end Binary64

namespace Decimal

/-- The decimal of a signed 64-bit integer is exact. -/
theorem value_ofInt64 (n : Int64) : (ofInt64 n).value = n.toInt := by
  have hzero : (0 : Int64).toInt = 0 := rfl
  rw [value, signed, ofInt64]
  simp only [Int64.lt_iff_toInt_lt, hzero, decide_eq_true_eq, pow_zero, div_one]
  split
  · next hneg =>
    rw [Int.ofNat_natAbs_of_nonpos hneg.le, neg_neg]
  · next hnonneg => rw [Int.natAbs_of_nonneg (not_lt.1 hnonneg)]

/-- What a whole number is rounded to counts exactly. -/
theorem value_ofAmount_toFinite64 (n : ℤ) (inRange : -2 ^ 63 ≤ n ∧ n < 2 ^ 64) :
    (ofAmount (.finite (Number.integer n inRange).toFinite64)).value = (Number.integer n inRange).toFinite64.value := by
  have hclosest := Number.abs_value_toFinite64_sub_le (.integer n inRange) .zero
  obtain ⟨whole, hwhole⟩ := Number.exists_value_toFinite64_eq n inRange
  generalize (Number.integer n inRange).toFinite64 = x at hclosest hwhole
  have hroom : |x.value| < 2 ^ 96 := by
    have hzero : Finite64.zero.value = 0 := by simp [Finite64.value, Finite64.significand, Finite64.zero]
    have hn : |(n : ℚ)| ≤ 2 ^ 64 := by
      rw [← Int.cast_abs]
      exact_mod_cast abs_le.2 ⟨by omega, inRange.2.le⟩
    have hreverse := abs_sub_abs_le_abs_sub x.value n
    rw [Number.value, hzero, zero_sub, abs_neg] at hclosest
    linarith
  obtain ⟨d, hd⟩ := Option.isSome_iff_exists.1 ((isSome_ofFinite64?_iff x).2 hroom)
  have hamount : ofAmount (.finite x) = d := by simp [ofAmount, ofBinary64?, Binary64.finite?, hd]
  rw [hamount, value_of_ofFinite64? hd hwhole]

end Decimal

/-- A number counts exactly if a signed 64-bit integer can hold it, and as the closest binary64 number above that. -/
theorem value_numericAnswer_number (n : ℤ) (inRange : -2 ^ 63 ≤ n ∧ n < 2 ^ 64) :
    (numericAnswer (some (.number (.integer n inRange)))).value =
      if n < 2 ^ 63 then (n : ℚ) else (Number.integer n inRange).toFinite64.value := by
  rcases lt_or_ge n (2 ^ 63) with hsmall | hlarge
  · rw [if_pos hsmall, numericAnswer, Number.int64?, if_pos hsmall]
    simp only
    rw [Decimal.value_ofInt64, Int64.toInt_ofInt_of_le (by omega) (by omega)]
  · rw [if_neg hlarge.not_gt, numericAnswer, Number.int64?, if_neg hlarge.not_gt]
    exact Decimal.value_ofAmount_toFinite64 n inRange

variable {before after : String}

/-- The digits of a whole number in a text count as the closest binary64 number. -/
theorem value_numericAnswer_string (n : ℤ) (inRange : -2 ^ 63 ≤ n ∧ n < 2 ^ 64)
    (hbefore : Text.isAllBlank before = true) (hafter : Text.isAllBlank after = true) :
    (numericAnswer (some (.string (before ++ toString n ++ after)))).value =
      (Number.integer n inRange).toFinite64.value := by
  rw [numericAnswer, Text.trim_append hbefore hafter fun _ => Text.isBlank_of_mem_toString,
    Binary64.ofText?_toString n inRange]
  exact Decimal.value_ofAmount_toFinite64 n inRange

/-- A whole number counts exactly where a signed 64-bit integer or a binary64 number equals it, and its digits in a text only
where a binary64 number does; otherwise a closest binary64 number counts. -/
theorem numericAnswer_integer (n : ℤ) (inRange : -2 ^ 63 ≤ n ∧ n < 2 ^ 64) (hbefore : Text.isAllBlank before = true)
    (hafter : Text.isAllBlank after = true) :
    let number := (numericAnswer (some (.number (.integer n inRange)))).value
    let text := (numericAnswer (some (.string (before ++ toString n ++ after)))).value
    (number = n ↔ n < 2 ^ 63 ∨ ∃ x : Finite64, x.value = n) ∧ (text = n ↔ ∃ x : Finite64, x.value = n) ∧
      (number = text ↔ 2 ^ 63 ≤ n ∨ ∃ x : Finite64, x.value = n) ∧
      (∃ x : Finite64, text = x.value ∧ ∀ y : Finite64, |x.value - n| ≤ |y.value - n|) ∧
      (2 ^ 63 ≤ n → ∃ x : Finite64, number = x.value ∧ ∀ y : Finite64, |x.value - n| ≤ |y.value - n|) := by
  intro number text
  have hnumber : number = if n < 2 ^ 63 then (n : ℚ) else (Number.integer n inRange).toFinite64.value :=
    value_numericAnswer_number n inRange
  have htext : text = (Number.integer n inRange).toFinite64.value := value_numericAnswer_string n inRange hbefore hafter
  have hclosest := Number.abs_value_toFinite64_sub_le (.integer n inRange)
  have hexact : (Number.integer n inRange).toFinite64.value = n ↔ ∃ x : Finite64, x.value = n :=
    ⟨fun h => ⟨_, h⟩, fun ⟨x, hx⟩ => Number.value_toFinite64_of_eq (n := .integer n inRange) hx⟩
  rw [htext, hexact]
  refine ⟨?_, Iff.rfl, ?_, ⟨_, rfl, hclosest⟩, fun hlarge => ⟨_, by rw [hnumber, if_neg hlarge.not_gt], hclosest⟩⟩
  · rw [hnumber]
    split
    · next hsmall => exact iff_of_true rfl (.inl hsmall)
    · next hlarge => rw [hexact, or_iff_right hlarge]
  · rw [hnumber]
    split
    · next hsmall => rw [eq_comm, hexact, or_iff_right (by omega)]
    · next hlarge => exact iff_of_true rfl (.inl (not_lt.1 hlarge))

/-- The condition for the first whole number that is no binary64 number, with blanks around its digits. -/
theorem numericAnswer_integer_blanks :
    let number := (numericAnswer (some (.number (.integer (2 ^ 53 + 1) (by decide))))).value
    let text := (numericAnswer (some (.string (" " ++ toString (2 ^ 53 + 1 : ℤ) ++ "\t\n")))).value
    Text.isAllBlank " " = true ∧ Text.isAllBlank "\t\n" = true ∧
      (number = ((2 ^ 53 + 1 : ℤ) : ℚ) ↔ (2 ^ 53 + 1 : ℤ) < 2 ^ 63 ∨ ∃ x : Finite64, x.value = ((2 ^ 53 + 1 : ℤ) : ℚ)) ∧
      (text = ((2 ^ 53 + 1 : ℤ) : ℚ) ↔ ∃ x : Finite64, x.value = ((2 ^ 53 + 1 : ℤ) : ℚ)) := by
  have hbefore : Text.isAllBlank " " = true := by decide
  have hafter : Text.isAllBlank "\t\n" = true := by decide
  have hanswer := numericAnswer_integer (2 ^ 53 + 1) (by decide) hbefore hafter
  exact ⟨hbefore, hafter, hanswer.1, hanswer.2.1⟩

/-- The number `2 ^ 53 + 1` counts exactly, but its digits in a text do not; nor does the largest unsigned 64-bit integer,
in either form. -/
theorem numericAnswer_not_exact :
    (numericAnswer (some (.number (.integer 9007199254740993 (by decide))))).value = 9007199254740993 ∧
      (numericAnswer (some (.string "9007199254740993"))).value = 9007199254740992 ∧
      (numericAnswer (some (.number (.integer 18446744073709551615 (by decide))))).value = 18446744073709551616 ∧
      (numericAnswer (some (.string "18446744073709551615"))).value = 18446744073709551616 := by
  have hnumber : numericAnswer (some (.number (.integer 9007199254740993 (by decide)))) =
      { negative := false, coefficient := 9007199254740993, scale := 0 } := by decide +kernel
  have htext : numericAnswer (some (.string "9007199254740993")) =
      { negative := false, coefficient := 9007199254740992, scale := 0 } := by decide +kernel
  have hlargest : numericAnswer (some (.number (.integer 18446744073709551615 (by decide)))) =
      { negative := false, coefficient := 18446744073709551616, scale := 0 } := by decide +kernel
  have hlargestText : numericAnswer (some (.string "18446744073709551615")) =
      { negative := false, coefficient := 18446744073709551616, scale := 0 } := by decide +kernel
  norm_num [hnumber, htext, hlargest, hlargestText, Decimal.value, Decimal.signed]

end TradeIn
