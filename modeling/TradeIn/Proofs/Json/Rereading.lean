import TradeIn.Proofs.Json.NumberLexing
import TradeIn.Proofs.Json.Reading

/-!
# Every value comes back from text

The text of a finite number is read without overflow: its digits write a number that is hardly above it, and rounding
moves little. So every JSON value that is not nested too deep comes back from its text, if perhaps with neighbours of
its binary64 numbers. `Json.restored` is the value that comes back.
-/

namespace TradeIn

/-- The ten largest numbers come back from text. -/
private theorem isSome_reread?_largest : ∀ (negative : Bool) (below : Fin 5),
    ((Number.binary ⟨negative, ⟨2047 * 2 ^ 52 - 5 + below, by omega⟩⟩).reread?).isSome = true := by
  decide +kernel

/-- The text of a finite number is read to its end as one number, which does not overflow if the number is below the
largest. -/
theorem Json.exists_lexNumber_finiteText (x : Finite64) :
    ∃ c cs whole places exponent, (finiteText x).toList = (if x.negative then '-' :: c :: cs else c :: cs) ∧
      c.isDigit = true ∧
      Token.lexNumber x.negative (c :: cs) = (Token.ofDecimal x.negative whole places exponent, []) ∧
      (x.rank.val < 2047 * 2 ^ 52 - 5 → DoesNotOverflow whole places exponent) := by
  have hmagnitude : ∃ c cs whole places exponent, (if positionalExponents.1 ≤ x.shortest.leadingExponent ∧
        x.shortest.leadingExponent ≤ positionalExponents.2 then positional x.shortest
      else scientific x.shortest).toList = c :: cs ∧ c.isDigit = true ∧
      Token.lexNumber x.negative (c :: cs) = (Token.ofDecimal x.negative whole places exponent, []) ∧
      (x.rank.val < 2047 * 2 ^ 52 - 5 → DoesNotOverflow whole places exponent) := by
    split
    · next hpositional =>
      obtain ⟨c, cs, whole, places, exponent, htext, hc, hlex, hfinite⟩ :=
        exists_lexNumber_positional x.negative _ x.shortest_spec.1 hpositional.2
      exact ⟨c, cs, whole, places, exponent, htext, hc, hlex, fun _ => hfinite⟩
    · obtain ⟨c, cs, whole, places, exponent, htext, hc, hlex, hfinite⟩ :=
        exists_lexNumber_scientific x.negative x.shortest
      exact ⟨c, cs, whole, places, exponent, htext, hc, hlex, fun hlow => hfinite (Finite64.value_shortest_le hlow)⟩
  obtain ⟨c, cs, whole, places, exponent, htext, hrest⟩ := hmagnitude
  refine ⟨c, cs, whole, places, exponent, ?_, hrest⟩
  unfold finiteText
  cases x.negative <;> simp [htext]

/-- Every number comes back from text. -/
theorem Number.exists_reread? (number : Number) : ∃ back, number.reread? = some back := by
  cases number with
  | integer value inRange => exact ⟨_, rfl⟩
  | binary x =>
    rcases Nat.lt_or_ge x.rank.val (2047 * 2 ^ 52 - 5) with hlow | hhigh
    · obtain ⟨c, cs, whole, places, exponent, htext, hc, hlex, hfinite⟩ := Json.exists_lexNumber_finiteText x
      obtain ⟨y, hy⟩ := LeadingDigits.exists_toBinary64_eq_finite x.negative (hfinite hlow)
      have htoken : Token.ofDecimal x.negative whole places exponent = .number (.binary y) := by
        rw [Token.ofDecimal, hy, Token.ofBinary64]
      rw [htoken] at hlex
      exact ⟨.binary y, by rw [reread?, Token.ofText_of_lexNumber hc htext hlex (by simp)]⟩
    · obtain ⟨negative, rank, hrank⟩ := x
      obtain ⟨below, rfl⟩ : ∃ below, rank = 2047 * 2 ^ 52 - 5 + below := Nat.exists_eq_add_of_le hhigh
      exact Option.isSome_iff_exists.1 (isSome_reread?_largest negative ⟨below, by omega⟩)

namespace Parsed

mutual

/-- The tree of a value can be read. -/
theorem exists_toJson_parsed : ∀ value : Json, ∃ read, value.parsed.toJson = .ok read
  | .null => ⟨_, rfl⟩
  | .bool _ => ⟨_, rfl⟩
  | .number _ => ⟨_, rfl⟩
  | .string _ => ⟨_, rfl⟩
  | .array items => by
    obtain ⟨read, hread⟩ := exists_toItems_parsedItems items
    exact ⟨.array read, by simp [Json.parsed, toJson, hread, bind, Except.bind, pure, Except.pure]⟩
  | .object members => by
    obtain ⟨read, hread⟩ := exists_toMembers_parsedMembers members
    exact ⟨.object (Members.ofList read), by simp [Json.parsed, toJson, hread, bind, Except.bind, pure, Except.pure]⟩

/-- So can the trees of several items. -/
theorem exists_toItems_parsedItems : ∀ items : List Json, ∃ read, toItems (Json.parsedItems items) true = .ok read
  | [] => ⟨_, rfl⟩
  | item :: items => by
    obtain ⟨first, hfirst⟩ := exists_toJson_parsed item
    obtain ⟨rest, hrest⟩ := exists_toItems_parsedItems items
    exact ⟨first :: rest, by
      simp [Json.parsedItems, toItems, hfirst, hrest, bind, Except.bind, pure, Except.pure]⟩

/-- So can the trees of several members. -/
theorem exists_toMembers_parsedMembers : ∀ members : List (String × Json),
    ∃ read, toMembers (Json.parsedMembers members) true = .ok read
  | [] => ⟨_, rfl⟩
  | (key, value) :: members => by
    obtain ⟨first, hfirst⟩ := exists_toJson_parsed value
    obtain ⟨rest, hrest⟩ := exists_toMembers_parsedMembers members
    exact ⟨(key, first) :: rest, by
      simp [Json.parsedMembers, toMembers, hfirst, hrest, bind, Except.bind, pure, Except.pure]⟩

end

end Parsed

namespace Json

mutual

/-- All numbers of a value come back. -/
theorem exists_recoded? : ∀ value : Json, ∃ back, value.recoded? = some back
  | .null => ⟨_, rfl⟩
  | .bool _ => ⟨_, rfl⟩
  | .number n => by
    obtain ⟨back, hback⟩ := n.exists_reread?
    exact ⟨_, by rw [recoded?, hback, Option.map_some]⟩
  | .string _ => ⟨_, rfl⟩
  | .array items => by
    obtain ⟨back, hback⟩ := exists_recodedItems? items
    exact ⟨_, by rw [recoded?, hback, Option.map_some]⟩
  | .object members => by
    obtain ⟨back, hback⟩ := exists_recodedMembers? members
    exact ⟨_, by rw [recoded?, hback, Option.map_some]⟩

/-- So do those of several items. -/
theorem exists_recodedItems? : ∀ items : List Json, ∃ back, recodedItems? items = some back
  | [] => ⟨_, rfl⟩
  | item :: items => by
    obtain ⟨first, hfirst⟩ := exists_recoded? item
    obtain ⟨rest, hrest⟩ := exists_recodedItems? items
    exact ⟨first :: rest, by simp [recodedItems?, hfirst, hrest]⟩

/-- So do those of several members. -/
theorem exists_recodedMembers? : ∀ members : List (String × Json), ∃ back, recodedMembers? members = some back
  | [] => ⟨_, rfl⟩
  | (key, value) :: members => by
    obtain ⟨first, hfirst⟩ := exists_recoded? value
    obtain ⟨rest, hrest⟩ := exists_recodedMembers? members
    exact ⟨(key, first) :: rest, by simp [recodedMembers?, hfirst, hrest]⟩

end

/-- Every value comes back from text that is not nested too deep. -/
theorem exists_reread? {value : Json} (h : value.nesting ≤ Parsed.maxDepth) : ∃ back, value.reread? = some back := by
  obtain ⟨back, hback⟩ := value.exists_recoded?
  exact ⟨back, reread?_eq_some_iff.2 ⟨h, hback⟩⟩

/-- The value that is read from the text that a value is written to; null if that is nested too deep to be read. -/
def restored (value : Json) : Json := (value.reread?.bind Reader.json.ofJson?).getD .null

/-- A value that is written can be read unless it is nested too deep. -/
theorem bind_reread?_eq_restored {value : Json} (h : value.nesting ≤ Parsed.maxDepth) :
    value.reread?.bind Reader.json.ofJson? = some value.restored := by
  obtain ⟨back, hback⟩ := exists_reread? h
  obtain ⟨read, hread⟩ := Parsed.exists_toJson_parsed back
  have hjson : Reader.json.ofJson? back = some read := by rw [Reader.ofJson?, Reader.json, hread, Except.toOption]
  rw [restored, hback, Option.bind_some, hjson, Option.getD_some]

/-- A well formed value whose numbers come back as they are is restored as it is. -/
theorem restored_eq_self {value : Json} (hwellFormed : value.WellFormed) (hreread : value.reread? = some value) :
    value.restored = value := by
  rw [restored, hreread, Option.bind_some, Reader.ofJson?_json hwellFormed, Option.getD_some]

end Json

end TradeIn
