import TradeIn.Proofs.Json.NumberText
import TradeIn.Proofs.Json.Rereading

/-!
# The tokens of a printed value

The text of a value is cut into the tokens of the value that comes back (`Json.lexes_print`): strings are escaped so that
they are read as they were, and a number ends where a comma, a closing bracket or the end of the text follows.
-/

namespace TradeIn

namespace Token

variable {first c : Char} {cs after last rest : List Char} {token : Token} {tokens others : List Token} {negative : Bool}

/-- A text begins with tokens, and another text follows them. -/
inductive Lexes : List Char → List Token → List Char → Prop
  | done (cs : List Char) : Lexes cs [] cs
  | cons {first : Char} {cs after last : List Char} {token : Token} {tokens : List Token} (hspace : isSpace first = false)
    (hlex : lexFrom first cs = (token, after)) (hbroken : token ≠ .broken) (hshort : after.length ≤ cs.length)
    (hrest : Lexes after tokens last) : Lexes (first :: cs) (token :: tokens) last

/-- A text may be cut in two steps. -/
theorem Lexes.append (h : Lexes cs tokens after) (hafter : Lexes after others last) :
    Lexes cs (tokens ++ others) last := by
  induction h with
  | done => exact hafter
  | cons hspace hlex hbroken hshort _ ih => exact .cons hspace hlex hbroken hshort (ih hafter)

/-- One token at the beginning of a text. -/
theorem Lexes.single (hspace : isSpace first = false) (hlex : lexFrom first cs = (token, after))
    (hbroken : token ≠ .broken) (hshort : after.length ≤ cs.length) : Lexes (first :: cs) [token] after :=
  .cons hspace hlex hbroken hshort (.done after)

/-- A bracket, a comma or a colon before other tokens. -/
theorem Lexes.mark (h : Lexes cs tokens last) (hspace : isSpace c = false) (hlex : lexFrom c cs = (token, cs))
    (hbroken : token ≠ .broken) : Lexes (c :: cs) (token :: tokens) last :=
  .cons hspace hlex hbroken (Nat.le_refl _) h

/-- A text that consists of tokens is cut into them. -/
theorem Lexes.lexUpTo_eq {limit : Nat} (h : Lexes cs tokens []) (hlimit : cs.length ≤ limit) :
    lexUpTo limit [] cs = tokens := by
  generalize hlast : ([] : List Char) = last at h
  induction h generalizing limit with
  | done cs =>
    subst hlast
    cases limit <;> rfl
  | @cons first cs after last token tokens hspace hlex hbroken hshort _ ih =>
    obtain ⟨limit, rfl⟩ : ∃ room, limit = room + 1 := Nat.exists_eq_succ_of_ne_zero (by
      rw [List.length_cons] at hlimit
      omega)
    have hrest : lexUpTo limit [] after = tokens := ih (by rw [List.length_cons] at hlimit; omega) hlast
    have hkept : (first :: cs).dropWhile isSpace = first :: cs := List.dropWhile_cons_of_neg (by simp [hspace])
    rw [lexUpTo, hkept]
    simp only [hlex]
    rw [lexUpTo_eq_append, hrest]
    rfl

/-- What may follow the text of a value inside another one. -/
def Ends (rest : List Char) : Prop := ∀ c ∈ rest.head?, c = ',' ∨ c = ']' ∨ c = '\x7d'

/-- Nothing follows. -/
theorem ends_nil : Ends [] := by simp [Ends]

/-- A text of which no character is taken along ends what is taken before it. -/
theorem takeWhile_append_of_head {p : Char → Bool} (hrest : ∀ c ∈ rest.head?, p c = false) (cs : List Char) :
    (cs ++ rest).takeWhile p = cs.takeWhile p ∧ (cs ++ rest).dropWhile p = cs.dropWhile p ++ rest := by
  induction cs with
  | nil =>
    cases rest with
    | nil => exact ⟨rfl, rfl⟩
    | cons c rest =>
      have hc : p c = false := hrest c rfl
      simp [hc]
  | cons c cs ih =>
    cases hc : p c <;> simp [hc, ih]

/-- A digit does not follow a value. -/
theorem Ends.isDigit (h : Ends rest) : ∀ c ∈ rest.head?, c.isDigit = false := by
  intro c hc
  rcases h c hc with rfl | rfl | rfl <;> decide

/-- No other character that goes on with a number follows a value. -/
theorem Ends.head?_ne (h : Ends rest) : ∀ c ∈ ['.', 'e', 'E', '+', '-'], rest.head? ≠ some c := by
  intro c hc hhead
  rcases h c hhead with rfl | rfl | rfl <;> simp at hc

/-- Digits are taken alike before what may follow a value. -/
theorem Ends.takeWhile_isDigit (h : Ends rest) (cs : List Char) :
    (cs ++ rest).takeWhile Char.isDigit = cs.takeWhile Char.isDigit ∧
      (cs ++ rest).dropWhile Char.isDigit = cs.dropWhile Char.isDigit ++ rest :=
  takeWhile_append_of_head h.isDigit cs

/-- A character that goes on with a number is found alike before what may follow a value. -/
theorem Ends.head?_append (h : Ends rest) (cs : List Char) {c : Char} (hc : c ∈ ['.', 'e', 'E', '+', '-']) :
    (cs ++ rest).head? = some c ↔ cs.head? = some c := by
  cases cs with
  | nil => simpa using h.head?_ne c hc
  | cons first cs => rfl

/-- What follows the sign of an exponent. -/
def withoutSign : List Char → List Char
  | '+' :: digits => digits
  | '-' :: digits => digits
  | digits => digits

/-- A sign is taken alike before what may follow a value. -/
theorem Ends.withoutSign_append (h : Ends rest) (cs : List Char) :
    withoutSign (cs ++ rest) = withoutSign cs ++ rest := by
  cases cs with
  | nil =>
    change withoutSign rest = rest
    unfold withoutSign
    split
    · exact absurd rfl (h.head?_ne '+' (by simp))
    · exact absurd rfl (h.head?_ne '-' (by simp))
    · rfl
  | cons c cs =>
    unfold withoutSign
    simp only [List.cons_append]
    split <;> simp_all

/-- An exponent is read alike before what may follow a value. -/
theorem lexExponent_append (hrest : Ends rest) (cs : List Char) :
    lexExponent (cs ++ rest) = ((lexExponent cs).1, (lexExponent cs).2 ++ rest) := by
  -- The digits of an exponent are those after its sign.
  have hcons : ∀ (c : Char) (cs : List Char), lexExponent (c :: cs) =
      if c = 'e' || c = 'E' then
        (if ((withoutSign cs).takeWhile Char.isDigit).isEmpty then none
          else some (some (if cs.head? = some '-' then
            -(Text.digitsValue 0 ((withoutSign cs).takeWhile Char.isDigit) : ℤ)
            else Text.digitsValue 0 ((withoutSign cs).takeWhile Char.isDigit))),
          (withoutSign cs).dropWhile Char.isDigit)
      else (some none, c :: cs) := fun _ _ => rfl
  cases cs with
  | nil =>
    cases rest with
    | nil => rfl
    | cons c rest =>
      have he : c ≠ 'e' := fun heq => hrest.head?_ne 'e' (by simp) (by simp [heq])
      have hE : c ≠ 'E' := fun heq => hrest.head?_ne 'E' (by simp) (by simp [heq])
      simp [lexExponent, he, hE]
  | cons c cs =>
    obtain ⟨htake, hdrop⟩ := hrest.takeWhile_isDigit (withoutSign cs)
    have hminus : (cs ++ rest).head? = some '-' ↔ cs.head? = some '-' := hrest.head?_append cs (by simp)
    rw [List.cons_append, hcons, hcons, hrest.withoutSign_append, htake, hdrop]
    simp only [hminus]
    split <;> rfl

/-- A number is read alike before what may follow a value. -/
theorem lexNumber_append (hrest : Ends rest) (h : lexNumber negative cs = (token, [])) (hbroken : token ≠ .broken) :
    lexNumber negative (cs ++ rest) = (token, rest) := by
  obtain ⟨htake, hdrop⟩ := hrest.takeWhile_isDigit cs
  have hpoint : (cs.dropWhile Char.isDigit ++ rest).head? = some '.' ↔ (cs.dropWhile Char.isDigit).head? = some '.' :=
    hrest.head?_append _ (by simp)
  -- What remains after the digits, and after a point and its digits, is extended by what follows.
  by_cases hhas : (cs.dropWhile Char.isDigit).head? = some '.'
  · obtain ⟨places, hplaces⟩ := List.head?_eq_some_iff.1 hhas
    obtain ⟨htakePlaces, hdropPlaces⟩ := hrest.takeWhile_isDigit places
    simp only [lexNumber, hplaces, htake, hdrop, List.cons_append, List.head?_cons, decide_true, Bool.true_and, if_true,
      List.drop_succ_cons, List.drop_zero, htakePlaces, hdropPlaces, lexExponent_append hrest] at h ⊢
    split at h
    · exact absurd (Prod.mk.inj h).1.symm hbroken
    · next hwhole =>
      split at h
      · exact absurd (Prod.mk.inj h).1.symm hbroken
      · next hsome =>
        rw [if_neg hwhole, if_neg hsome]
        generalize lexExponent (places.dropWhile Char.isDigit) = exponent at h
        split at h <;> simp_all
  · have hhas' : ¬(cs.dropWhile Char.isDigit ++ rest).head? = some '.' := mt hpoint.1 hhas
    simp only [lexNumber, htake, hdrop, hhas, hhas', decide_false, Bool.false_and, Bool.false_eq_true, if_false,
      lexExponent_append hrest] at h ⊢
    split at h
    · exact absurd (Prod.mk.inj h).1.symm hbroken
    · next hwhole =>
      rw [if_neg hwhole]
      generalize lexExponent (cs.dropWhile Char.isDigit) = exponent at h
      split at h <;> simp_all

/-- A text that is read to its end as one number is one token before what may follow a value. -/
theorem lexes_of_lexNumber (hrest : Ends rest) (hc : c.isDigit = true)
    (hlex : lexNumber negative (c :: cs) = (token, [])) (hbroken : token ≠ .broken) :
    Lexes ((if negative then '-' :: c :: cs else c :: cs) ++ rest) [token] rest := by
  have hnumber := lexNumber_append hrest hlex hbroken
  cases negative with
  | true => exact .single rfl hnumber hbroken (by simp; omega)
  | false => exact .single (isSpace_of_isDigit hc) ((lexFrom_of_isDigit hc _).trans hnumber) hbroken (by simp)

/-- The digits of a whole number are read as the whole number. -/
theorem lexNumber_toString {value : ℤ} (inRange : -2 ^ 63 ≤ value ∧ value < 2 ^ 64) :
    lexNumber (value < 0) (toString value.natAbs).toList = (.number (.integer value inRange), []) := by
  have hdigits := Text.areDigits_toString value.natAbs
  have hsome := Text.toString_ne_nil value.natAbs
  have hvalue := Text.digitsValue_toString value.natAbs
  have hzero := Text.eq_zero_of_head?_toString (n := value.natAbs)
  generalize (toString value.natAbs).toList = digits at hdigits hsome hvalue hzero
  obtain ⟨htake, hdrop⟩ := Text.takeWhile_append_of_areDigits [] hdigits (by simp)
  rw [List.append_nil] at htake hdrop
  have hzeros : ¬(digits = [] ∨ digits.head? = some '0' ∧ 1 < digits.length) := by
    rintro (hnil | ⟨hhead, hlength⟩)
    · exact hsome hnil
    · exact absurd (hzero hhead).2 (by omega)
  have hlt : Text.digitsValue 0 (digits ++ []) < 2 ^ 64 := by
    rw [List.append_nil, hvalue]
    omega
  have hinteger : ofInteger (value < 0) digits = .number (.integer value inRange) := by
    have hsigned : (if value < 0 then -(value.natAbs : ℤ) else value.natAbs) = value := by
      split <;> omega
    simp only [ofInteger, LeadingDigits.ofDigits_of_lt _ _ hlt, List.append_nil, hvalue, decide_eq_true_eq, hsigned]
    rw [dif_pos ⟨inRange, rfl, by omega⟩]
  simp [lexNumber, htake, hdrop, hzeros, lexExponent, hinteger]

/-- The text of a number is the token of the number that comes back. -/
theorem lexes_numberText {number back : Number} (h : number.reread? = some back) (hrest : Ends rest) :
    Lexes ((Json.numberText number).toList ++ rest) [.number back] rest := by
  cases number with
  | integer value inRange =>
    obtain rfl := Option.some.inj h
    obtain ⟨c, cs, hdigits⟩ := List.exists_cons_of_ne_nil (Text.toString_ne_nil value.natAbs)
    have hc : c.isDigit = true := Text.areDigits_toString value.natAbs c (hdigits ▸ List.mem_cons_self)
    have htext : (toString value).toList = if decide (value < 0) = true then '-' :: c :: cs else c :: cs := by
      rw [← hdigits]
      cases value with
      | ofNat n => rfl
      | negSucc n =>
        change ("-" ++ toString (n + 1)).toList = _
        rw [String.toList_append, if_pos (by simp)]
        rfl
    rw [Json.numberText, htext]
    exact lexes_of_lexNumber hrest hc (hdigits ▸ lexNumber_toString inRange) (by simp)
  | binary x =>
    obtain ⟨c, cs, whole, places, exponent, htext, hc, hlex, -⟩ := Json.exists_lexNumber_finiteText x
    have hbroken : ofDecimal x.negative whole places exponent ≠ .broken := by
      unfold ofDecimal ofBinary64
      split <;> simp
    have hback : ofDecimal x.negative whole places exponent = .number back := by
      rw [Number.reread?, ofText_of_lexNumber hc htext hlex hbroken] at h
      split at h
      · next heq => exact Option.some.inj h ▸ List.singleton_injective heq
      · cases h
    rw [Json.numberText, htext, ← hback]
    exact lexes_of_lexNumber hrest hc hlex hbroken

/-- The piece of a string that a character is written as. -/
def Piece.ofChar (c : Char) : Piece :=
  if c.toNat < 0x20 ∧ c ∉ ['\n', '\r', '\t', '\x08', '\x0c'] then .unit c.toNat else .char c

/-- The two last digits of a control character's escape write its code. -/
theorem codeUnit?_hexDigit : ∀ code : Fin 0x20,
    codeUnit? '0' '0' (Json.hexDigit (code / 16)) (Json.hexDigit (code % 16)) = some code.val := by
  decide

/-- A character is read as the piece that it is written as. -/
theorem pieces?_escapeChar (before : List Piece) (c : Char) (cs : List Char) :
    pieces? before ((Json.escapeChar c).toList ++ cs) = pieces? (Piece.ofChar c :: before) cs := by
  unfold Json.escapeChar
  split
  · next h => subst h; rfl
  split
  · next h => subst h; rfl
  split
  · next h => subst h; rfl
  split
  · next h => subst h; rfl
  split
  · next h => subst h; rfl
  split
  · next h => subst h; rfl
  split
  · next h => subst h; rfl
  split
  · next hquote hbackslash hn hr ht hb hf hcontrol =>
    have hpiece : Piece.ofChar c = .unit c.toNat := by simp [Piece.ofChar, hcontrol, hn, hr, ht, hb, hf]
    simp [pieces?, codeUnit?_hexDigit ⟨c.toNat, hcontrol⟩, hpiece]
  · next hquote hbackslash hn hr ht hb hf hcontrol =>
    have hpiece : Piece.ofChar c = .char c := by simp [Piece.ofChar, hcontrol]
    simp [pieces?, hbackslash, hcontrol, hpiece]

/-- The characters of a string are read up to its closing quote. -/
theorem pieces?_flatMap_escapeChar (before : List Piece) (cs rest : List Char) :
    pieces? before (cs.flatMap (fun c => (Json.escapeChar c).toList) ++ '"' :: rest) =
      some (before.reverse ++ cs.map Piece.ofChar, rest) := by
  induction cs generalizing before with
  | nil => simp [pieces?]
  | cons c cs ih =>
    rw [List.flatMap_cons, List.append_assoc, pieces?_escapeChar, ih]
    simp

/-- A control character that is written as an escape stands for itself. -/
theorem joinPieces?_unit {code : ℕ} (h : code < 0x20) (before : List Char) (pieces : List Piece) :
    joinPieces? before (.unit code :: pieces) = joinPieces? (Char.ofNat code :: before) pieces := by
  have hhigh : isHighSurrogate code = false := by simp [isHighSurrogate]; omega
  have hlow : isLowSurrogate code = false := by simp [isLowSurrogate]; omega
  rcases pieces with _ | ⟨_ | _, pieces⟩ <;> simp [joinPieces?, hhigh, hlow]

/-- The pieces of characters are joined to the characters. -/
theorem joinPieces?_map_ofChar (before cs : List Char) :
    joinPieces? before (cs.map Piece.ofChar) = some (String.ofList (before.reverse ++ cs)) := by
  induction cs generalizing before with
  | nil => simp [joinPieces?]
  | cons c cs ih =>
    have hjoin : joinPieces? before (Piece.ofChar c :: cs.map Piece.ofChar) =
        joinPieces? (c :: before) (cs.map Piece.ofChar) := by
      by_cases h : c.toNat < 0x20 ∧ c ∉ ['\n', '\r', '\t', '\x08', '\x0c']
      · rw [Piece.ofChar, if_pos h, joinPieces?_unit h.1, Char.ofNat_toNat]
      · rw [Piece.ofChar, if_neg h, joinPieces?]
    rw [List.map_cons, hjoin, ih]
    simp

/-- A string stands in quotes with its characters escaped. -/
theorem toList_quote (s : String) :
    (Json.quote s).toList = '"' :: (s.toList.flatMap (fun c => (Json.escapeChar c).toList) ++ ['"']) := by
  have hfold : ∀ (cs : List Char) (text : String), (cs.foldl (fun text c => text ++ Json.escapeChar c) text).toList =
      text.toList ++ cs.flatMap fun c => (Json.escapeChar c).toList := by
    intro cs
    induction cs with
    | nil => simp
    | cons c cs ih => simp [ih]
  simp [Json.quote, hfold]

/-- A string in quotes is the token of the string. -/
theorem lexes_quote (s : String) (rest : List Char) : Lexes ((Json.quote s).toList ++ rest) [.string s] rest := by
  have hstring : lexString (s.toList.flatMap (fun c => (Json.escapeChar c).toList) ++ '"' :: rest) =
      (.string s, rest) := by
    rw [lexString, pieces?_flatMap_escapeChar]
    simp [joinPieces?_map_ofChar]
  rw [toList_quote, List.cons_append, List.append_assoc, List.singleton_append]
  exact .single rfl hstring (by simp) (by simp; omega)

/-- A key in quotes and the colon after it, before other tokens. -/
theorem Lexes.key (h : Lexes cs tokens last) (key : String) :
    Lexes ((Json.quote key).toList ++ ':' :: cs) (.string key :: .colon :: tokens) last :=
  (lexes_quote key _).append (h.mark rfl rfl (by simp))

end Token

namespace Json

open Token

mutual

/-- The tokens that a value is written with. -/
def tokens : Json → List Token
  | null => [.null]
  | bool value => [.bool value]
  | number value => [.number value]
  | string value => [.string value]
  | array [] => [.openArray, .closeArray]
  | array (item :: items) => .openArray :: (item.tokens ++ (itemTokens items ++ [.closeArray]))
  | object [] => [.openObject, .closeObject]
  | object ((key, value) :: members) =>
    .openObject :: .string key :: .colon :: (value.tokens ++ (memberTokens members ++ [.closeObject]))

/-- The tokens of the items after the first. -/
def itemTokens : List Json → List Token
  | [] => []
  | item :: items => .comma :: (item.tokens ++ itemTokens items)

/-- The tokens of the members after the first. -/
def memberTokens : List (String × Json) → List Token
  | [] => []
  | (key, value) :: members => .comma :: .string key :: .colon :: (value.tokens ++ memberTokens members)

end

/-- A text goes on with tokens, before anything that may follow a value. -/
def Continues (text longer : String) (tokens : List Token) : Prop :=
  ∃ cs, longer.toList = text.toList ++ cs ∧ ∀ rest, Ends rest → Lexes (cs ++ rest) tokens rest

-- The induction is on the value. What follows an inner value is the comma or the bracket that is written next, so the
-- hypothesis that it ends the value is met wherever a value stands.
mutual

/-- A value is written with the tokens of the value that comes back. -/
theorem continues_printAfter : ∀ (text : String) {value back : Json}, value.recoded? = some back →
    Continues text (printAfter text value) back.tokens
  | text, .null, _, h => by
    obtain rfl := Option.some.inj h
    exact ⟨"null".toList, String.toList_append, fun rest _ => .single rfl rfl (by simp) (by simp; omega)⟩
  | text, .bool b, _, h => by
    obtain rfl := Option.some.inj h
    refine ⟨(if b then "true" else "false").toList, String.toList_append, fun rest _ => ?_⟩
    cases b <;> exact .single rfl rfl (by simp) (by simp; omega)
  | text, .number n, _, h => by
    obtain ⟨back, hback, rfl⟩ := Option.map_eq_some_iff.1 h
    exact ⟨(numberText n).toList, String.toList_append, fun rest hrest => lexes_numberText hback hrest⟩
  | text, .string s, _, h => by
    obtain rfl := Option.some.inj h
    exact ⟨(quote s).toList, String.toList_append, fun rest _ => lexes_quote s rest⟩
  | text, .array [], _, h => by
    obtain rfl := Option.some.inj h
    exact ⟨"[]".toList, String.toList_append,
      fun rest _ => .mark (.mark (.done rest) rfl rfl (by simp)) rfl rfl (by simp)⟩
  | text, .array (item :: items), _, h => by
    obtain ⟨back, hback, rfl⟩ := Option.map_eq_some_iff.1 h
    simp only [recodedItems?, bind, Option.bind_eq_some_iff, pure, Option.some.injEq] at hback
    obtain ⟨first, hfirst, others, hothers, rfl⟩ := hback
    obtain ⟨cs, hcs, hlex⟩ := continues_printAfter (text ++ "[") hfirst
    obtain ⟨ds, hds, hends, hlexOthers⟩ := continues_printItemsAfter (printAfter (text ++ "[") item) hothers
    refine ⟨'[' :: (cs ++ ds ++ [']']), by simp [printAfter, hcs, hds], fun rest _ => ?_⟩
    have hclose : Ends (']' :: rest) := by simp [Ends]
    have hlast : Lexes (']' :: rest) [.closeArray] rest := .mark (.done rest) rfl rfl (by simp)
    have hrest := (hlex _ (hends _ hclose)).append ((hlexOthers _ hclose).append hlast)
    simpa [tokens] using hrest.mark (c := '[') rfl rfl (by simp)
  | text, .object [], _, h => by
    obtain rfl := Option.some.inj h
    exact ⟨"\x7b\x7d".toList, String.toList_append,
      fun rest _ => .mark (.mark (.done rest) rfl rfl (by simp)) rfl rfl (by simp)⟩
  | text, .object ((key, value) :: members), _, h => by
    obtain ⟨back, hback, rfl⟩ := Option.map_eq_some_iff.1 h
    simp only [recodedMembers?, bind, Option.bind_eq_some_iff, pure, Option.some.injEq] at hback
    obtain ⟨first, hfirst, others, hothers, rfl⟩ := hback
    obtain ⟨cs, hcs, hlex⟩ := continues_printAfter (text ++ "\x7b" ++ quote key ++ ":") hfirst
    obtain ⟨ds, hds, hends, hlexOthers⟩ :=
      continues_printMembersAfter (printAfter (text ++ "\x7b" ++ quote key ++ ":") value) hothers
    refine ⟨'\x7b' :: ((quote key).toList ++ ':' :: (cs ++ ds ++ ['\x7d'])),
      by simp [printAfter, hcs, hds], fun rest _ => ?_⟩
    have hclose : Ends ('\x7d' :: rest) := by simp [Ends]
    have hlast : Lexes ('\x7d' :: rest) [.closeObject] rest := .mark (.done rest) rfl rfl (by simp)
    have hrest := ((hlex _ (hends _ hclose)).append ((hlexOthers _ hclose).append hlast)).key key
    simpa [tokens] using hrest.mark (c := '\x7b') rfl rfl (by simp)

/-- So are several items, each after a comma. -/
theorem continues_printItemsAfter : ∀ (text : String) {items back : List Json}, recodedItems? items = some back →
    ∃ cs, (printItemsAfter text items).toList = text.toList ++ cs ∧
      (∀ rest, Ends rest → Ends (cs ++ rest)) ∧ ∀ rest, Ends rest → Lexes (cs ++ rest) (itemTokens back) rest
  | text, [], _, h => by
    obtain rfl := Option.some.inj h
    exact ⟨[], by simp [printItemsAfter], fun _ hrest => hrest, fun rest _ => .done rest⟩
  | text, item :: items, _, h => by
    simp only [recodedItems?, bind, Option.bind_eq_some_iff, pure, Option.some.injEq] at h
    obtain ⟨first, hfirst, others, hothers, rfl⟩ := h
    obtain ⟨cs, hcs, hlex⟩ := continues_printAfter (text ++ ",") hfirst
    obtain ⟨ds, hds, hends, hlexOthers⟩ := continues_printItemsAfter (printAfter (text ++ ",") item) hothers
    refine ⟨',' :: (cs ++ ds), by simp [printItemsAfter, hcs, hds], fun rest _ => by simp [Ends], fun rest hrest => ?_⟩
    have htokens := (hlex _ (hends _ hrest)).append (hlexOthers _ hrest)
    simpa [itemTokens] using htokens.mark (c := ',') rfl rfl (by simp)

/-- So are several members, each after a comma. -/
theorem continues_printMembersAfter : ∀ (text : String) {members back : List (String × Json)},
    recodedMembers? members = some back →
    ∃ cs, (printMembersAfter text members).toList = text.toList ++ cs ∧
      (∀ rest, Ends rest → Ends (cs ++ rest)) ∧ ∀ rest, Ends rest → Lexes (cs ++ rest) (memberTokens back) rest
  | text, [], _, h => by
    obtain rfl := Option.some.inj h
    exact ⟨[], by simp [printMembersAfter], fun _ hrest => hrest, fun rest _ => .done rest⟩
  | text, (key, value) :: members, _, h => by
    simp only [recodedMembers?, bind, Option.bind_eq_some_iff, pure, Option.some.injEq] at h
    obtain ⟨first, hfirst, others, hothers, rfl⟩ := h
    obtain ⟨cs, hcs, hlex⟩ := continues_printAfter (text ++ "," ++ quote key ++ ":") hfirst
    obtain ⟨ds, hds, hends, hlexOthers⟩ :=
      continues_printMembersAfter (printAfter (text ++ "," ++ quote key ++ ":") value) hothers
    refine ⟨',' :: ((quote key).toList ++ ':' :: (cs ++ ds)), by simp [printMembersAfter, hcs, hds],
      fun rest _ => by simp [Ends], fun rest hrest => ?_⟩
    have htokens := ((hlex _ (hends _ hrest)).append (hlexOthers _ hrest)).key key
    simpa [memberTokens] using htokens.mark (c := ',') rfl rfl (by simp)

end

/-- The text of a value is cut into the tokens of the value that comes back. -/
theorem ofText_print {value back : Json} (h : value.recoded? = some back) : Token.ofText value.print = back.tokens := by
  obtain ⟨cs, htext, hlex⟩ := continues_printAfter "" h
  have hall : Lexes value.print.toList back.tokens [] := by
    rw [print, htext]
    simpa using hlex [] ends_nil
  exact hall.lexUpTo_eq (Nat.le_refl _)

end Json

end TradeIn
