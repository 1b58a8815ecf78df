import Mathlib.Data.List.TakeDrop
import TradeIn.Json.Rereading
import TradeIn.Proofs.Number.ShortestDigits

/-!
# Reading a written number

A finite number is written with digits, and with a point or an exponent. Such a text is one token, and the token has the
digits that were written. What they write together is not larger than what the number was written for.
-/

namespace TradeIn

/-- All characters are digits. -/
def Text.AreDigits (cs : List Char) : Prop := ∀ c ∈ cs, c.isDigit = true

namespace Text

variable {cs ds : List Char}

/-- The digits of a whole number are digits. -/
theorem areDigits_toString (n : ℕ) : AreDigits (toString n).toList := by
  rw [Nat.toString_eq_ofList_toDigits, String.toList_ofList]
  exact fun c hc => Nat.isDigit_of_mem_toDigits (by decide) (by decide) hc

/-- A whole number has at least one digit. -/
theorem toString_ne_nil (n : ℕ) : (toString n).toList ≠ [] := by
  rw [Nat.toString_eq_ofList_toDigits, String.toList_ofList]
  exact Nat.toDigits_ne_nil

/-- The digits of a whole number write it. -/
theorem digitsValue_toString (n : ℕ) : digitsValue 0 (toString n).toList = n := by
  rw [Nat.toString_eq_ofList_toDigits, String.toList_ofList]
  exact Nat.ofDigitChars_ten_toDigits

/-- Digits after others count less. -/
theorem digitsValue_append (before : ℕ) (cs ds : List Char) :
    digitsValue before (cs ++ ds) = digitsValue (digitsValue before cs) ds := List.foldl_append ..

/-- What comes before digits is moved up by them. -/
theorem digitsValue_eq_add (before : ℕ) (ds : List Char) :
    digitsValue before ds = before * 10 ^ ds.length + digitsValue 0 ds := by
  induction ds generalizing before with
  | nil => simp [digitsValue]
  | cons d ds ih =>
    have hfirst : ∀ n, digitsValue n (d :: ds) = digitsValue (10 * n + (d.toNat - '0'.toNat)) ds := fun _ => rfl
    rw [hfirst, hfirst, ih, ih (10 * 0 + _), List.length_cons, pow_succ]
    ring

/-- So many digits write less than that power of ten. -/
theorem digitsValue_lt (hds : AreDigits ds) : digitsValue 0 ds < 10 ^ ds.length := by
  induction ds with
  | nil => simp [digitsValue]
  | cons d ds ih =>
    obtain ⟨hd, hds⟩ := List.forall_mem_cons.1 hds
    have hfirst : digitsValue 0 (d :: ds) = digitsValue (10 * 0 + (d.toNat - '0'.toNat)) ds := rfl
    have hdigit : d.toNat - '0'.toNat ≤ 9 := by
      have hrange := Char.isDigit_iff_toNat.1 hd
      have hnine : '9'.toNat = '0'.toNat + 9 := rfl
      omega
    have hrest := ih hds
    have hmul : (d.toNat - '0'.toNat) * 10 ^ ds.length ≤ 9 * 10 ^ ds.length := Nat.mul_le_mul_right _ hdigit
    rw [hfirst, digitsValue_eq_add, Nat.mul_zero, Nat.zero_add, List.length_cons, pow_succ]
    omega

/-- Only zero is written with a leading zero. -/
theorem eq_zero_of_head?_toString {n : ℕ} (h : (toString n).toList.head? = some '0') :
    n = 0 ∧ (toString n).toList.length = 1 := by
  have hdigits := areDigits_toString n
  have hvalue := digitsValue_toString n
  have hlength : ∀ k, 0 < k → ((toString n).toList.length ≤ k ↔ n < 10 ^ k) := by
    intro k hk
    rw [Nat.toString_eq_ofList_toDigits, String.toList_ofList]
    exact Nat.length_toDigits_le_iff (by decide) hk
  generalize (toString n).toList = ds at h hdigits hvalue hlength
  cases ds with
  | nil => cases h
  | cons d ds =>
    obtain rfl := Option.some.inj h
    cases ds with
    | nil => exact ⟨hvalue.symm, rfl⟩
    | cons e es =>
      -- The other digits alone would write the number.
      have hlt := digitsValue_lt (List.forall_mem_cons.1 hdigits).2
      have hle := (hlength (e :: es).length (by simp)).2 (hvalue ▸ hlt)
      simp at hle

/-- Digits are taken up to what is no digit. -/
theorem takeWhile_append_of_areDigits (ds : List Char) (hcs : AreDigits cs)
    (hds : ∀ d ∈ ds.head?, d.isDigit = false) :
    (cs ++ ds).takeWhile Char.isDigit = cs ∧ (cs ++ ds).dropWhile Char.isDigit = ds := by
  rw [List.takeWhile_append_of_pos hcs, List.dropWhile_append_of_pos hcs]
  cases ds with
  | nil => simp
  | cons d ds => simp [hds d rfl]

end Text

namespace Token

open Text

variable {negative : Bool} {whole places digits : List Char}

/-- The number of an exponent with a sign. -/
def signedExponent (isNegative : Bool) (digits : List Char) : ℤ :=
  if isNegative then -(digitsValue 0 digits : ℤ) else digitsValue 0 digits

/-- An exponent is read up to the end of its digits. -/
theorem lexExponent_of_digits (isNegative : Bool) (hdigits : AreDigits digits) (hsome : digits ≠ []) :
    lexExponent ('e' :: (if isNegative then '-' else '+') :: digits) =
      (some (some (signedExponent isNegative digits)), []) := by
  have htake : digits.takeWhile Char.isDigit = digits := by
    simpa using (takeWhile_append_of_areDigits [] hdigits (by simp)).1
  have hdrop : digits.dropWhile Char.isDigit = [] := by
    simpa using (takeWhile_append_of_areDigits [] hdigits (by simp)).2
  cases isNegative <;> simp [lexExponent, htake, hdrop, hsome, signedExponent]

/-- A number with one digit before the point and an exponent is read up to its end. -/
theorem lexNumber_scientific (negative isNegative : Bool) {c : Char} (hc : c.isDigit = true)
    (hplaces : AreDigits places) (hdigits : AreDigits digits) (hsome : digits ≠ []) :
    lexNumber negative (c :: ((if places.isEmpty then [] else '.' :: places) ++
      'e' :: (if isNegative then '-' else '+') :: digits)) =
      (ofDecimal negative [c] places (signedExponent isNegative digits), []) := by
  have hexponent := lexExponent_of_digits isNegative hdigits hsome
  have hfirst : AreDigits [c] := List.forall_mem_singleton.2 hc
  have hend : ∀ d ∈ ('e' :: (if isNegative then '-' else '+') :: digits).head?, d.isDigit = false := by simp
  generalize htail : ('e' :: (if isNegative then '-' else '+') :: digits) = tail at hexponent hend
  cases hplacesEmpty : places.isEmpty with
  | true =>
    obtain rfl := List.isEmpty_iff.1 hplacesEmpty
    have hpoint : tail.head? ≠ some '.' := by simp [← htail]
    obtain ⟨htake, hdrop⟩ := takeWhile_append_of_areDigits tail hfirst hend
    rw [List.singleton_append] at htake hdrop
    simp [lexNumber, htake, hdrop, hpoint, hexponent]
  | false =>
    obtain ⟨htake, hdrop⟩ := takeWhile_append_of_areDigits ('.' :: (places ++ tail)) hfirst (by simp)
    obtain ⟨htakePlaces, hdropPlaces⟩ := takeWhile_append_of_areDigits tail hplaces hend
    rw [List.singleton_append] at htake hdrop
    simp [lexNumber, htake, hdrop, htakePlaces, hdropPlaces, hexponent, List.isEmpty_eq_false_iff.1 hplacesEmpty]

/-- A number with a point is read up to its end. -/
theorem lexNumber_positional (negative : Bool) (hwhole : AreDigits whole) (hwholeSome : whole ≠ [])
    (hzero : whole.head? = some '0' → whole.length ≤ 1) (hplaces : AreDigits places) (hsome : places ≠ []) :
    lexNumber negative (whole ++ '.' :: places) = (ofDecimal negative whole places 0, []) := by
  obtain ⟨htake, hdrop⟩ := takeWhile_append_of_areDigits ('.' :: places) hwhole (by simp)
  obtain ⟨htakePlaces, hdropPlaces⟩ := takeWhile_append_of_areDigits [] hplaces (by simp)
  rw [List.append_nil] at htakePlaces hdropPlaces
  have hzeros : ¬(whole = [] ∨ whole.head? = some '0' ∧ 1 < whole.length) := by
    rintro (hnil | ⟨hhead, hlength⟩)
    · exact hwholeSome hnil
    · have hle := hzero hhead
      omega
  simp [lexNumber, htake, hdrop, htakePlaces, hdropPlaces, hsome, lexExponent, hzeros]

/-- A digit begins a number. -/
theorem lexFrom_of_isDigit {c : Char} (hc : c.isDigit = true) (rest : List Char) :
    lexFrom c rest = lexNumber false (c :: rest) := by
  unfold lexFrom
  split <;> first | rfl | simp_all

/-- A digit is no space. -/
theorem isSpace_of_isDigit {c : Char} (h : c.isDigit = true) : isSpace c = false := by
  have hne : ∀ space : Char, space.isDigit = false → c ≠ space := by
    rintro space hspace rfl
    rw [hspace] at h
    cases h
  simp [isSpace, hne ' ' rfl, hne '\n' rfl, hne '\r' rfl, hne '\t' rfl]

/-- A text that is one number has one token. -/
theorem ofText_of_lexNumber {text : String} {c : Char} {cs : List Char} {token : Token} (hc : c.isDigit = true)
    (htext : text.toList = if negative then '-' :: c :: cs else c :: cs)
    (hnumber : lexNumber negative (c :: cs) = (token, [])) (hbroken : token ≠ .broken) : ofText text = [token] := by
  have hspace : isSpace c = false := isSpace_of_isDigit hc
  have hdone : ∀ limit, lexUpTo limit [token] [] = [token] := by
    intro limit
    cases limit <;> rfl
  unfold ofText
  cases negative with
  | true =>
    have hfrom : lexFrom '-' (c :: cs) = (token, []) := hnumber
    simp [htext, lexUpTo, isSpace, hfrom]
  | false =>
    have hfrom : lexFrom c cs = (token, []) := (lexFrom_of_isDigit hc cs).trans hnumber
    simp [htext, lexUpTo, hspace, hfrom, hdone]

end Token

namespace LeadingDigits

variable {whole places : List Char}

/-- Multiplying by a power of ten multiplies the number. -/
theorem value_shift (d : LeadingDigits) (power : ℤ) : (d.shift power).value = d.value * 10 ^ power := by
  rw [value, value, shift, zpow_add₀ (by norm_num), mul_assoc]

/-- Leaving out places makes a number no larger. -/
theorem value_addPlaces_le (places : List Char) (d : LeadingDigits) :
    (d.addPlaces places).value ≤ Text.digitsValue d.coefficient places * 10 ^ (d.exponent - places.length) ∧
      (d.addPlaces places).exponent ≤ d.exponent := by
  induction places generalizing d with
  | nil => simp [addPlaces, value, Text.digitsValue]
  | cons digit places ih =>
    unfold addPlaces
    split
    · next hfits =>
      obtain ⟨hvalue, hexponent⟩ := ih ⟨_, d.exponent - 1, hfits⟩
      have hplaces : d.exponent - 1 - places.length = d.exponent - (digit :: places).length := by
        rw [List.length_cons]
        omega
      rw [hplaces] at hvalue
      exact ⟨hvalue, hexponent.trans (by simp)⟩
    · refine ⟨?_, le_refl _⟩
      have hpow : (10 : ℚ) ^ d.exponent =
          10 ^ (digit :: places).length * 10 ^ (d.exponent - (digit :: places).length) := by
        rw [← zpow_natCast, ← zpow_add₀ (by norm_num), add_sub_cancel]
      rw [value, hpow, ← mul_assoc, Text.digitsValue_eq_add]
      gcongr
      push_cast
      linarith [(Nat.cast_nonneg _ : (0 : ℚ) ≤ (Text.digitsValue 0 (digit :: places) : ℕ))]

/-- Digits before the point that fit are all collected, and of the places those that fit. -/
theorem value_ofDigits_le (places : List Char) (hwhole : Text.digitsValue 0 whole < 2 ^ 64) :
    (ofDigits whole places).value ≤ Text.digitsValue 0 (whole ++ places) * 10 ^ (-(places.length : ℤ)) ∧
      (ofDigits whole places).exponent ≤ 0 := by
  have hplaces := value_addPlaces_le places ⟨Text.digitsValue 0 whole, 0, hwhole⟩
  rw [zero_sub] at hplaces
  rw [ofDigits, addWhole_of_lt whole zero hwhole, Text.digitsValue_append]
  exact hplaces

end LeadingDigits

namespace Json

open Text

/-- The number read from digits before and after a point, and from an exponent, does not overflow. -/
def DoesNotOverflow (whole places : List Char) (exponent : ℤ) : Prop :=
  ((LeadingDigits.ofDigits whole places).shift exponent).value ≤ Finite64.readingLimit

/-- Without an exponent digits of a moderate length do not overflow. -/
theorem doesNotOverflow_zero {whole : List Char} (places : List Char) (hwhole : digitsValue 0 whole < 2 ^ 64) :
    DoesNotOverflow whole places 0 := by
  have hexponent := (LeadingDigits.value_ofDigits_le places hwhole).2
  have hlt := (LeadingDigits.ofDigits whole places).inRange
  rw [DoesNotOverflow, LeadingDigits.value_shift, zpow_zero, mul_one, LeadingDigits.value]
  generalize LeadingDigits.ofDigits whole places = d at hexponent hlt
  have hpow : (10 : ℚ) ^ d.exponent ≤ 1 := zpow_le_one_of_nonpos₀ (by norm_num) hexponent
  have hcoefficient : (d.coefficient : ℚ) ≤ 2 ^ 64 := by exact_mod_cast hlt.le
  have htop : (2 : ℚ) ^ (12 : ℤ) ≤ 2 ^ (971 : ℤ) := zpow_le_zpow_right₀ (by norm_num) (by norm_num)
  calc (d.coefficient : ℚ) * 10 ^ d.exponent ≤ 2 ^ 64 * 1 := by gcongr
    _ ≤ (2 ^ 53 - 5) * 2 ^ (12 : ℤ) := by norm_num
    _ ≤ Finite64.readingLimit := mul_le_mul_of_nonneg_left htop (by norm_num)

/-- A number that is written with an exponent is read to its end. -/
theorem exists_lexNumber_scientific (negative : Bool) (d : DecimalDigits) :
    ∃ c cs whole places exponent, (scientific d).toList = c :: cs ∧ c.isDigit = true ∧
      Token.lexNumber negative (c :: cs) = (Token.ofDecimal negative whole places exponent, []) ∧
      (d.value ≤ Finite64.readingLimit → DoesNotOverflow whole places exponent) := by
  have hdigits : AreDigits d.text.toList := areDigits_toString d.coefficient
  have hvalue : digitsValue 0 d.text.toList = d.coefficient := digitsValue_toString d.coefficient
  have hleading : d.leadingExponent = d.exponent + d.text.toList.length - 1 := by
    rw [DecimalDigits.leadingExponent, String.length_toList]
  have htext : (scientific d).toList = d.text.toList.take 1 ++ ((if (d.text.toList.drop 1).isEmpty then []
      else '.' :: d.text.toList.drop 1) ++ 'e' :: (if d.leadingExponent < 0 then '-' else '+') ::
        (toString d.leadingExponent.natAbs).toList) := by
    simp only [scientific]
    split <;> split <;> simp
  have hsome : d.text.toList ≠ [] := toString_ne_nil d.coefficient
  generalize d.text.toList = digits at hdigits hvalue hleading htext hsome
  cases digits with
  | nil => exact absurd rfl hsome
  | cons c places =>
    obtain ⟨hc, hplaces⟩ := List.forall_mem_cons.1 hdigits
    simp only [List.take_succ_cons, List.take_zero, List.drop_succ_cons, List.drop_zero, List.singleton_append] at htext
    have hlex := Token.lexNumber_scientific negative (decide (d.leadingExponent < 0)) hc hplaces
      (areDigits_toString d.leadingExponent.natAbs) (toString_ne_nil _)
    have hexponent : Token.signedExponent (decide (d.leadingExponent < 0))
        (toString d.leadingExponent.natAbs).toList = d.leadingExponent := by
      rw [Token.signedExponent, digitsValue_toString]
      simp only [decide_eq_true_eq]
      split <;> omega
    simp only [decide_eq_true_eq] at hlex
    rw [hexponent] at hlex
    refine ⟨c, _, [c], places, d.leadingExponent, htext, hc, hlex, fun hlimit => ?_⟩
    have hfirst : digitsValue 0 [c] < 10 ^ 1 := digitsValue_lt (by simp [AreDigits, hc])
    have hbound := (LeadingDigits.value_ofDigits_le places (hfirst.trans (by norm_num))).1
    rw [List.singleton_append, hvalue] at hbound
    rw [DoesNotOverflow, LeadingDigits.value_shift]
    calc (LeadingDigits.ofDigits [c] places).value * 10 ^ d.leadingExponent
        ≤ d.coefficient * 10 ^ (-(places.length : ℤ)) * 10 ^ d.leadingExponent := by gcongr
      _ = d.value := by
        have hsum : -(places.length : ℤ) + d.leadingExponent = d.exponent := by
          rw [hleading, List.length_cons]
          omega
        rw [DecimalDigits.value, mul_assoc, ← zpow_add₀ (by norm_num), hsum]
      _ ≤ Finite64.readingLimit := hlimit

/-- Digits on both sides of a point as they are written: some before the point, at most 16 and without a leading zero
before others, and some after it. -/
structure AreParts (whole places : List Char) : Prop where
  areDigits_whole : AreDigits whole
  areDigits_places : AreDigits places
  whole_ne_nil : whole ≠ []
  places_ne_nil : places ≠ []
  length_le : whole.length ≤ 16
  length_le_one : whole.head? = some '0' → whole.length ≤ 1

section Parts

variable {digits : List Char} {zeros : ℕ}

/-- Zeros are digits. -/
theorem areDigits_replicate (zeros : ℕ) : AreDigits (List.replicate zeros '0') := by
  intro c hc
  rw [List.eq_of_mem_replicate hc]
  rfl

/-- The digits of a whole number that is filled up with zeros. -/
theorem areParts_append_replicate (hdigits : AreDigits digits) (hsome : digits ≠ [])
    (hlength : digits.length + zeros ≤ 16) (hhead : digits.head? = some '0' → digits.length + zeros ≤ 1) :
    AreParts (digits ++ List.replicate zeros '0') ['0'] where
  areDigits_whole c hc := (List.mem_append.1 hc).elim (hdigits c) (areDigits_replicate zeros c)
  areDigits_places := areDigits_replicate 1
  whole_ne_nil := List.append_ne_nil_of_left_ne_nil hsome _
  places_ne_nil := List.cons_ne_nil _ _
  length_le := by rwa [List.length_append, List.length_replicate]
  length_le_one hzero := by
    rw [List.head?_append_of_ne_nil _ hsome] at hzero
    rw [List.length_append, List.length_replicate]
    exact hhead hzero

/-- The digits of a number with places, with as many zeros in front as it takes to have one digit before the point. -/
theorem areParts_take_drop {point : ℕ} (hdigits : AreDigits digits) (hpoint : 0 < point)
    (hplaces : point < zeros + digits.length) (hlength : point ≤ 16) (hzeros : 1 < point → zeros = 0)
    (hhead : digits.head? = some '0' → point ≤ 1) :
    AreParts ((List.replicate zeros '0' ++ digits).take point) ((List.replicate zeros '0' ++ digits).drop point) := by
  have hall : AreDigits (List.replicate zeros '0' ++ digits) := fun c hc =>
    (List.mem_append.1 hc).elim (areDigits_replicate zeros c) (hdigits c)
  have htake : ((List.replicate zeros '0' ++ digits).take point).length = point := by
    rw [List.length_take, List.length_append, List.length_replicate]
    omega
  have hdrop : 0 < ((List.replicate zeros '0' ++ digits).drop point).length := by
    rw [List.length_drop, List.length_append, List.length_replicate]
    omega
  refine ⟨fun c hc => hall c (List.mem_of_mem_take hc), fun c hc => hall c (List.mem_of_mem_drop hc),
    List.ne_nil_of_length_pos (by omega), List.ne_nil_of_length_pos hdrop, by omega, fun hzero => ?_⟩
  rw [htake]
  by_contra hlong
  -- More than one digit before the point are the first digits of the number.
  obtain rfl := hzeros (by omega)
  rw [List.replicate_zero, List.nil_append, List.head?_take, if_neg (by omega)] at hzero
  exact hlong (hhead hzero)

end Parts

/-- A number that is written without an exponent has digits on both sides of the point. -/
theorem exists_areParts_positional {d : DecimalDigits} (hzero : d.coefficient = 0 → d.exponent = 0)
    (hleading : d.leadingExponent ≤ 15) :
    ∃ whole places, (positional d).toList = whole ++ '.' :: places ∧ AreParts whole places := by
  have hdigits : AreDigits d.text.toList := areDigits_toString d.coefficient
  have hsome : d.text.toList ≠ [] := toString_ne_nil d.coefficient
  have hfirst : d.text.toList.head? = some '0' → d.exponent = 0 ∧ d.text.toList.length = 1 := fun hhead =>
    (eq_zero_of_head?_toString hhead).imp_left hzero
  rw [DecimalDigits.leadingExponent, ← String.length_toList] at hleading
  unfold positional
  generalize d.text.toList = digits at hdigits hsome hfirst hleading
  have hpositive := List.length_pos_of_ne_nil hsome
  simp only
  split
  · refine ⟨digits ++ List.replicate d.exponent.toNat '0', ['0'], by simp, ?_⟩
    refine areParts_append_replicate hdigits hsome (by omega) fun hhead => ?_
    obtain ⟨hexponent, hone⟩ := hfirst hhead
    omega
  · generalize hzeros : (1 - (digits.length : ℤ) - d.exponent).toNat = zeros
    generalize hpoint : (List.replicate zeros '0' ++ digits).length - (-d.exponent).toNat = point
    rw [List.length_append, List.length_replicate] at hpoint
    refine ⟨(List.replicate zeros '0' ++ digits).take point, (List.replicate zeros '0' ++ digits).drop point, by simp,
      ?_⟩
    refine areParts_take_drop hdigits (by omega) (by omega) (by omega) (by omega) fun hhead => ?_
    obtain ⟨hexponent, -⟩ := hfirst hhead
    omega

/-- A number that is written without an exponent is read to its end. -/
theorem exists_lexNumber_positional (negative : Bool) (d : DecimalDigits) (hzero : d.coefficient = 0 → d.exponent = 0)
    (hleading : d.leadingExponent ≤ 15) :
    ∃ c cs whole places exponent, (positional d).toList = c :: cs ∧ c.isDigit = true ∧
      Token.lexNumber negative (c :: cs) = (Token.ofDecimal negative whole places exponent, []) ∧
      DoesNotOverflow whole places exponent := by
  obtain ⟨whole, places, htext, hparts⟩ := exists_areParts_positional hzero hleading
  obtain ⟨c, cs, rfl⟩ := List.exists_cons_of_ne_nil hparts.whole_ne_nil
  have hlex := Token.lexNumber_positional negative hparts.areDigits_whole hparts.whole_ne_nil hparts.length_le_one
    hparts.areDigits_places hparts.places_ne_nil
  have hbound : digitsValue 0 (c :: cs) < 2 ^ 64 := by
    calc digitsValue 0 (c :: cs) < 10 ^ (c :: cs).length := digitsValue_lt hparts.areDigits_whole
      _ ≤ 10 ^ 16 := Nat.pow_le_pow_right (by decide) hparts.length_le
      _ ≤ 2 ^ 64 := by decide
  have hc := (List.forall_mem_cons.1 hparts.areDigits_whole).1
  exact ⟨c, _, c :: cs, places, 0, htext, hc, hlex, doesNotOverflow_zero places hbound⟩

end Json

end TradeIn
