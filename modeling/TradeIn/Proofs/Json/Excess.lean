import Mathlib.Data.Nat.Notation
import Mathlib.Logic.Basic
import TradeIn.Json.Rereading

/-!
# Where reading stops

A value that is nested too deep is written, but its text is read only up to the first bracket that opens one level too many
(`Json.excess?`). There is such a bracket exactly if the value is nested too deep (`Json.excess?_eq_none_iff`), and where it
is said to be there stands a bracket in the text (`Json.opensAt_of_excess?`).
-/

namespace TradeIn

namespace Json

mutual

/-- The text of a value follows the text before it. -/
theorem printAfter_eq : ∀ (text : String) (value : Json), printAfter text value = text ++ value.print
  | text, .null => by simp [print, printAfter]
  | text, .bool _ => by simp [print, printAfter]
  | text, .number _ => by simp [print, printAfter]
  | text, .string _ => by simp [print, printAfter]
  | text, .array [] => by simp [print, printAfter]
  | text, .array (item :: items) => by
    rw [print, printAfter, printAfter, printAfter_eq (text ++ "["), printAfter_eq ("" ++ "["),
      printItemsAfter_eq (text ++ "[" ++ item.print), printItemsAfter_eq ("" ++ "[" ++ item.print)]
    simp only [String.append_assoc, String.empty_append]
  | text, .object [] => by simp [print, printAfter]
  | text, .object ((key, value) :: members) => by
    rw [print, printAfter, printAfter, printAfter_eq (text ++ "\x7b" ++ quote key ++ ":"),
      printAfter_eq ("" ++ "\x7b" ++ quote key ++ ":"), printMembersAfter_eq (text ++ _ ++ _ ++ _ ++ value.print),
      printMembersAfter_eq ("" ++ _ ++ _ ++ _ ++ value.print)]
    simp only [String.append_assoc, String.empty_append]

/-- So do the texts of items. -/
theorem printItemsAfter_eq : ∀ (text : String) (items : List Json),
    printItemsAfter text items = text ++ printItemsAfter "" items
  | text, [] => by simp [printItemsAfter]
  | text, item :: items => by
    rw [printItemsAfter, printItemsAfter, printAfter_eq (text ++ ","), printAfter_eq ("" ++ ","),
      printItemsAfter_eq (text ++ "," ++ item.print), printItemsAfter_eq ("" ++ "," ++ item.print)]
    simp only [String.append_assoc, String.empty_append]

/-- So do the texts of members. -/
theorem printMembersAfter_eq : ∀ (text : String) (members : List (String × Json)),
    printMembersAfter text members = text ++ printMembersAfter "" members
  | text, [] => by simp [printMembersAfter]
  | text, (key, value) :: members => by
    rw [printMembersAfter, printMembersAfter, printAfter_eq (text ++ "," ++ quote key ++ ":"),
      printAfter_eq ("" ++ "," ++ quote key ++ ":"), printMembersAfter_eq (text ++ _ ++ _ ++ _ ++ value.print),
      printMembersAfter_eq ("" ++ _ ++ _ ++ _ ++ value.print)]
    simp only [String.append_assoc, String.empty_append]

end

mutual

/-- There is a bracket too many exactly if a value is nested deeper than there is room. -/
theorem excess?_eq_none_iff : ∀ {value : Json} {before room : ℕ},
    value.excess? before room = none ↔ value.nesting ≤ room
  | .null, _, _ => by simp [excess?, nesting]
  | .bool _, _, _ => by simp [excess?, nesting]
  | .number _, _, _ => by simp [excess?, nesting]
  | .string _, _, _ => by simp [excess?, nesting]
  | .array items, _, room => by
    rw [excess?, nesting]
    split
    · next hroom => simp [hroom]
    · rw [itemsExcess?_eq_none_iff]
      omega
  | .object members, _, room => by
    rw [excess?, nesting]
    split
    · next hroom => simp [hroom]
    · rw [membersExcess?_eq_none_iff]
      omega

/-- The same holds for items. -/
theorem itemsExcess?_eq_none_iff : ∀ {items : List Json} {before room : ℕ},
    itemsExcess? before items room = none ↔ itemsNesting items ≤ room
  | [], _, _ => by simp [itemsExcess?, itemsNesting]
  | item :: items, _, room => by
    rw [itemsExcess?, itemsNesting, Nat.max_le, Option.orElse_eq_orElse, Option.orElse_eq_or, Option.or_eq_none_iff,
      excess?_eq_none_iff, itemsExcess?_eq_none_iff]

/-- The same holds for members. -/
theorem membersExcess?_eq_none_iff : ∀ {members : List (String × Json)} {before room : ℕ},
    membersExcess? before members room = none ↔ membersNesting members ≤ room
  | [], _, _ => by simp [membersExcess?, membersNesting]
  | (key, value) :: members, _, room => by
    rw [membersExcess?, membersNesting, Nat.max_le, Option.orElse_eq_orElse, Option.orElse_eq_or, Option.or_eq_none_iff,
      excess?_eq_none_iff, membersExcess?_eq_none_iff]

end

/-- In a text that follows so many bytes, a bracket opens an array or object and ends so many bytes from the start. -/
def OpensAt (before : ℕ) (text : String) (column : ℕ) : Prop :=
  ∃ front rest : String, (text = front ++ "[" ++ rest ∨ text = front ++ "\x7b" ++ rest) ∧
    column = before + front.utf8ByteSize + 1

variable {before column : ℕ} {text more : String}

/-- The bracket may be in the part of a text behind some other part. -/
theorem OpensAt.behind (h : OpensAt (before + text.utf8ByteSize) more column) : OpensAt before (text ++ more) column := by
  obtain ⟨front, rest, hmore, hcolumn⟩ := h
  refine ⟨text ++ front, rest, hmore.imp (fun heq => ?_) (fun heq => ?_), ?_⟩
  · simp only [heq, String.append_assoc]
  · simp only [heq, String.append_assoc]
  · rw [hcolumn, String.utf8ByteSize_append, Nat.add_assoc before]

/-- It may be in the part in front. -/
theorem OpensAt.inFront (h : OpensAt before text column) (more : String) : OpensAt before (text ++ more) column := by
  obtain ⟨front, rest, htext, hcolumn⟩ := h
  refine ⟨front, rest ++ more, htext.imp (fun heq => ?_) (fun heq => ?_), hcolumn⟩
  · simp only [heq, String.append_assoc]
  · simp only [heq, String.append_assoc]

/-- A text that starts with a bracket has it in the first place. -/
theorem opensAt_openArray (before : ℕ) (rest : String) : OpensAt before ("[" ++ rest) (before + 1) :=
  ⟨"", rest, .inl (by rw [String.empty_append]), rfl⟩

/-- So has a text that starts with the other kind of bracket. -/
theorem opensAt_openObject (before : ℕ) (rest : String) : OpensAt before ("\x7b" ++ rest) (before + 1) :=
  ⟨"", rest, .inr (by rw [String.empty_append]), rfl⟩

/-- What is found in either of two parts is found in the text that they make. -/
theorem opensAt_of_orElse {first second : Option ℕ} (h : (first <|> second) = some column)
    (hfirst : first = some column → OpensAt before text column)
    (hsecond : second = some column → OpensAt (before + text.utf8ByteSize) more column) :
    OpensAt before (text ++ more) column := by
  rw [Option.orElse_eq_orElse, Option.orElse_eq_or, Option.or_eq_some_iff] at h
  rcases h with h | ⟨-, h⟩
  · exact (hfirst h).inFront more
  · exact (hsecond h).behind

/-- The text of an array with items. -/
theorem print_array_cons (item : Json) (items : List Json) :
    (array (item :: items)).print = "[" ++ ((item.print ++ printItemsAfter "" items) ++ "]") := by
  rw [print, printAfter, printAfter_eq, printItemsAfter_eq]
  simp only [String.append_assoc, String.empty_append]

/-- The text of the items after the first. -/
theorem printItemsAfter_cons (item : Json) (items : List Json) :
    printItemsAfter "" (item :: items) = "," ++ (item.print ++ printItemsAfter "" items) := by
  rw [printItemsAfter, printAfter_eq, printItemsAfter_eq]
  simp only [String.append_assoc, String.empty_append]

/-- The text of an object with members. -/
theorem print_object_cons (key : String) (value : Json) (members : List (String × Json)) :
    (object ((key, value) :: members)).print =
      "\x7b" ++ (((quote key ++ ":") ++ (value.print ++ printMembersAfter "" members)) ++ "\x7d") := by
  rw [print, printAfter, printAfter_eq, printMembersAfter_eq]
  simp only [String.append_assoc, String.empty_append]

/-- The text of the members after the first. -/
theorem printMembersAfter_cons (key : String) (value : Json) (members : List (String × Json)) :
    printMembersAfter "" ((key, value) :: members) =
      "," ++ ((quote key ++ ":") ++ (value.print ++ printMembersAfter "" members)) := by
  rw [printMembersAfter, printAfter_eq, printMembersAfter_eq]
  simp only [String.append_assoc, String.empty_append]

/-- It may be in the text behind a key. -/
theorem OpensAt.behindKey {key : String} (h : OpensAt (before + (quote key).utf8ByteSize + 1) more column) :
    OpensAt before ((quote key ++ ":") ++ more) column := by
  have hkey : (quote key ++ ":").utf8ByteSize = (quote key).utf8ByteSize + 1 := String.utf8ByteSize_append
  rw [Nat.add_assoc, ← hkey] at h
  exact h.behind

mutual

/-- Where reading stops there is a bracket in the text. -/
theorem opensAt_of_excess? : ∀ {value : Json} {before room column : ℕ}, value.excess? before room = some column →
    OpensAt before value.print column
  | .null, _, _, _, h => by cases h
  | .bool _, _, _, _, h => by cases h
  | .number _, _, _, _, h => by cases h
  | .string _, _, _, _, h => by cases h
  | .array items, before, room, column, h => by
    rw [excess?] at h
    cases items with
    | nil =>
      obtain ⟨-, h⟩ | ⟨-, h⟩ := ite_eq_iff.1 h
      · exact Option.some.inj h ▸ opensAt_openArray before "]"
      · cases h
    | cons item items =>
      rw [print_array_cons]
      obtain ⟨-, h⟩ | ⟨-, h⟩ := ite_eq_iff.1 h
      · exact Option.some.inj h ▸ opensAt_openArray before _
      · exact ((opensAt_of_orElse h opensAt_of_excess? opensAt_of_itemsExcess?).inFront "]").behind
  | .object members, before, room, column, h => by
    rw [excess?] at h
    cases members with
    | nil =>
      obtain ⟨-, h⟩ | ⟨-, h⟩ := ite_eq_iff.1 h
      · exact Option.some.inj h ▸ opensAt_openObject before "\x7d"
      · cases h
    | cons member members =>
      rw [print_object_cons]
      obtain ⟨-, h⟩ | ⟨-, h⟩ := ite_eq_iff.1 h
      · exact Option.some.inj h ▸ opensAt_openObject before _
      · exact ((opensAt_of_orElse h opensAt_of_excess? opensAt_of_membersExcess?).behindKey.inFront "\x7d").behind

/-- So there is in the texts of items. -/
theorem opensAt_of_itemsExcess? : ∀ {items : List Json} {before room column : ℕ},
    itemsExcess? (before + 1) items room = some column → OpensAt before (printItemsAfter "" items) column
  | [], _, _, _, h => by cases h
  | item :: items, before, room, column, h => by
    rw [printItemsAfter_cons]
    exact (opensAt_of_orElse h opensAt_of_excess? opensAt_of_itemsExcess?).behind

/-- So there is in the texts of members. -/
theorem opensAt_of_membersExcess? : ∀ {members : List (String × Json)} {before room column : ℕ},
    membersExcess? (before + 1) members room = some column → OpensAt before (printMembersAfter "" members) column
  | [], _, _, _, h => by cases h
  | (key, value) :: members, before, room, column, h => by
    rw [printMembersAfter_cons]
    exact (opensAt_of_orElse h opensAt_of_excess? opensAt_of_membersExcess?).behindKey.behind

end

end Json

end TradeIn
