import TradeIn.Json.Rereading
import TradeIn.Text.Blank

/-!
# Numbers in text

A binary64 number is always written with a point or an exponent, and a number that is read as a whole number has
neither. So a binary64 number that comes back from text comes back as a binary64 number, if perhaps as a neighbour.
-/

namespace TradeIn

namespace Token

/-- Tokens are put after the ones before them. -/
theorem lexUpTo_eq_append (limit : Nat) (before : List Token) (cs : List Char) :
    lexUpTo limit before cs = before.reverse ++ lexUpTo limit [] cs := by
  induction limit generalizing before cs with
  | zero => simp [lexUpTo]
  | succ limit ih =>
    rw [lexUpTo, lexUpTo]
    split
    · simp
    · split
      · simp
      · next token rest _ _ =>
        rw [ih (token :: before), ih [token]]
        simp

/-- A number with a point or an exponent is no whole number. -/
theorem ofBinary64_ne_integer (x : Binary64) (value : Int) (inRange : -2 ^ 63 ≤ value ∧ value < 2 ^ 64) :
    ofBinary64 x ≠ .number (.integer value inRange) := by
  cases x <;> simp [ofBinary64]

/-- Without an exponent nothing is taken from the text. -/
theorem rest_of_lexExponent {cs rest : List Char} (h : lexExponent cs = (some none, rest)) : rest = cs := by
  cases cs with
  | nil => cases h; rfl
  | cons c cs =>
    simp only [lexExponent] at h
    split at h
    · split at h <;> simp at h
    · cases h
      rfl

/-- A whole number takes its digits from the text and nothing else. -/
theorem rest_of_lexNumber {negative : Bool} {cs rest : List Char} {value : Int}
    {inRange : -2 ^ 63 ≤ value ∧ value < 2 ^ 64}
    (h : lexNumber negative cs = (.number (.integer value inRange), rest)) :
    rest = cs.dropWhile Char.isDigit := by
  by_cases hpoint : (cs.dropWhile Char.isDigit).head? = some '.'
  · simp only [lexNumber, hpoint, decide_true, if_true, Bool.true_and] at h
    split at h
    · cases h
    · split at h
      · cases h
      · split at h
        · cases h
        · exact absurd (Prod.mk.inj h).1 (ofBinary64_ne_integer _ _ _)
        · exact absurd (Prod.mk.inj h).1 (ofBinary64_ne_integer _ _ _)
  · simp only [lexNumber, hpoint, decide_false, Bool.false_and, Bool.false_eq_true, if_false] at h
    split at h
    · cases h
    · split at h
      · cases h
      · next hexponent =>
        obtain ⟨_, rfl⟩ := Prod.mk.inj h
        exact rest_of_lexExponent hexponent
      · exact absurd (Prod.mk.inj h).1 (ofBinary64_ne_integer _ _ _)

/-- A character that a whole number, or the space around it, is written with. -/
def isWholeChar (c : Char) : Bool := c.isDigit || c = '-' || isSpace c

/-- A whole number takes digits from the text, perhaps after a minus sign, and nothing else. -/
theorem rest_of_lexFrom {first : Char} {cs rest : List Char} {value : Int}
    {inRange : -2 ^ 63 ≤ value ∧ value < 2 ^ 64}
    (h : lexFrom first cs = (.number (.integer value inRange), rest)) :
    (first = '-' ∧ rest = cs.dropWhile Char.isDigit) ∨
      (first.isDigit = true ∧ rest = (first :: cs).dropWhile Char.isDigit) := by
  unfold lexFrom at h
  split at h
  case h_7 =>
    unfold lexString at h
    split at h
    · cases h
    · split at h <;> cases h
  case h_8 => exact .inl ⟨rfl, rest_of_lexNumber h⟩
  case h_12 =>
    split at h
    · next hdigit => exact .inr ⟨hdigit, rest_of_lexNumber h⟩
    · cases h
  all_goals cases h

/-- Blanks that are dropped are characters of whole numbers, and so is what is kept if all of it is. -/
private theorem forall_isWholeChar_of_dropWhile {p : Char → Bool} (hp : ∀ c, p c = true → isWholeChar c = true)
    {cs : List Char} (h : ∀ c ∈ cs.dropWhile p, isWholeChar c = true) : ∀ c ∈ cs, isWholeChar c = true := by
  intro c hc
  rcases Text.eq_true_or_mem_dropWhile hc with hdropped | hkept
  · exact hp c hdropped
  · exact h c hkept

private theorem isWholeChar_of_isDigit (c : Char) (h : c.isDigit = true) : isWholeChar c = true := by
  simp [isWholeChar, h]

private theorem isWholeChar_of_isSpace (c : Char) (h : isSpace c = true) : isWholeChar c = true := by
  simp [isWholeChar, h]

/-- Where no more tokens are found there is nothing but space, or no room for a token. -/
private theorem dropWhile_eq_nil_of_lexUpTo {limit : Nat} {cs : List Char} (h : lexUpTo limit [] cs = []) :
    limit = 0 ∨ cs.dropWhile isSpace = [] := by
  cases limit with
  | zero => exact .inl rfl
  | succ limit =>
    rw [lexUpTo] at h
    split at h
    · next hdrop => exact .inr hdrop
    · split at h
      · simp at h
      · rw [lexUpTo_eq_append] at h
        simp at h

/-- A text that is one whole number has no other characters. -/
theorem forall_isWholeChar_of_ofText {text : String} {value : Int} {inRange : -2 ^ 63 ≤ value ∧ value < 2 ^ 64}
    (h : ofText text = [.number (.integer value inRange)]) : ∀ c ∈ text.toList, isWholeChar c = true := by
  have hlex : lexUpTo text.toList.length [] text.toList = [.number (.integer value inRange)] := h
  refine forall_isWholeChar_of_dropWhile isWholeChar_of_isSpace ?_
  generalize text.toList = cs at hlex
  cases hlimit : cs.length with
  | zero => simp [List.eq_nil_of_length_eq_zero hlimit]
  | succ limit =>
    rw [hlimit, lexUpTo] at hlex
    split at hlex
    · cases hlex
    · next first rest hdrop =>
      split at hlex
      · cases hlex
      · next token after hnot htoken =>
        rw [lexUpTo_eq_append, List.reverse_singleton, List.singleton_append, List.cons.injEq] at hlex
        obtain ⟨rfl, hnone⟩ := hlex
        have hspace : after.dropWhile isSpace = [] := by
          rcases dropWhile_eq_nil_of_lexUpTo hnone with rfl | hspace
          · have hlength : (first :: rest).length ≤ cs.length := hdrop ▸ (List.dropWhile_sublist _).length_le
            obtain rfl : rest = [] := by simpa [hlimit] using hlength
            rcases rest_of_lexFrom htoken with ⟨_, rfl⟩ | ⟨hdigit, rfl⟩
            · rfl
            · simp [hdigit]
          · exact hspace
        have hafter : ∀ c ∈ after, isWholeChar c = true :=
          forall_isWholeChar_of_dropWhile isWholeChar_of_isSpace (by simp [hspace])
        rw [hdrop]
        rcases rest_of_lexFrom htoken with ⟨rfl, rfl⟩ | ⟨_, rfl⟩
        · exact List.forall_mem_cons.2 ⟨rfl, forall_isWholeChar_of_dropWhile isWholeChar_of_isDigit hafter⟩
        · exact forall_isWholeChar_of_dropWhile isWholeChar_of_isDigit hafter

end Token

/-- A binary64 number is written with a point or an exponent. -/
theorem Json.exists_mem_finiteText (x : Finite64) : ∃ c ∈ (Json.finiteText x).toList, Token.isWholeChar c = false := by
  have hmagnitude : ∀ d : DecimalDigits, (∃ c ∈ (positional d).toList, Token.isWholeChar c = false) ∧
      ∃ c ∈ (scientific d).toList, Token.isWholeChar c = false := by
    intro d
    refine ⟨⟨'.', ?_, by decide⟩, ⟨'e', ?_, by decide⟩⟩
    · simp only [positional]
      split <;> simp
    · simp [scientific]
  obtain ⟨c, hc, hnot⟩ : ∃ c ∈ (if positionalExponents.1 ≤ x.shortest.leadingExponent ∧
      x.shortest.leadingExponent ≤ positionalExponents.2 then positional x.shortest
      else scientific x.shortest).toList, Token.isWholeChar c = false := by
    split
    · exact (hmagnitude x.shortest).1
    · exact (hmagnitude x.shortest).2
  refine ⟨c, ?_, hnot⟩
  unfold finiteText
  split
  · rw [String.toList_append]
    exact List.mem_append_right _ hc
  · exact hc

/-- A binary64 number that comes back from text is a binary64 number. -/
theorem Number.exists_of_reread?_binary {x : Finite64} {number : Number} (h : (binary x).reread? = some number) :
    ∃ y, number = .binary y := by
  cases number with
  | binary y => exact ⟨y, rfl⟩
  | integer value inRange =>
    simp only [reread?] at h
    split at h
    · next htokens =>
      obtain rfl := Option.some.inj h
      obtain ⟨c, hc, hnot⟩ := Json.exists_mem_finiteText x
      rw [Token.forall_isWholeChar_of_ofText htokens c hc] at hnot
      cases hnot
    · cases h

end TradeIn
