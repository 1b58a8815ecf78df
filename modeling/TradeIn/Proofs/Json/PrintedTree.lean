import TradeIn.Proofs.Json.PrintedTokens

/-!
# The tree of a printed value

The tree of the text that a value is written to is the tree of the value that comes back, but for arrays and objects that
are nested deeper than a text may nest them: each of those is there and cannot be read (`Parsed.ofText_print`). A value
that is nested no deeper is read from its text as if it had been there all along.
-/

namespace TradeIn

namespace Json

mutual

/-- The tree of a value of which so many levels of arrays and objects can be read. -/
def parsedWithin : Json → (room : ℕ) → Parsed
  | array items, room => if room = 0 then .unreadable else .array (parsedItemsWithin items (room - 1)) true
  | object members, room => if room = 0 then .unreadable else .object (parsedMembersWithin members (room - 1)) true
  | null, _ => .null
  | bool value, _ => .bool value
  | number value, _ => .number value
  | string value, _ => .string value

/-- The trees of the items of an array. -/
def parsedItemsWithin : List Json → (room : ℕ) → List Parsed
  | [], _ => []
  | item :: items, room => item.parsedWithin room :: parsedItemsWithin items room

/-- The trees of the members of an object. -/
def parsedMembersWithin : List (String × Json) → (room : ℕ) → List (Option String × Parsed)
  | [], _ => []
  | (key, value) :: members, room => (some key, value.parsedWithin room) :: parsedMembersWithin members room

end

mutual

/-- A value that is not nested too deep can be read as a whole. -/
theorem parsedWithin_eq : ∀ {value : Json} {room : ℕ}, value.nesting ≤ room → value.parsedWithin room = value.parsed
  | .null, _, _ => rfl
  | .bool _, _, _ => rfl
  | .number _, _, _ => rfl
  | .string _, _, _ => rfl
  | .array items, room, h => by
    have hroom : room ≠ 0 ∧ itemsNesting items ≤ room - 1 := by
      rw [nesting] at h
      omega
    rw [parsedWithin, parsed, if_neg hroom.1, parsedItemsWithin_eq hroom.2]
  | .object members, room, h => by
    have hroom : room ≠ 0 ∧ membersNesting members ≤ room - 1 := by
      rw [nesting] at h
      omega
    rw [parsedWithin, parsed, if_neg hroom.1, parsedMembersWithin_eq hroom.2]

/-- So can items. -/
theorem parsedItemsWithin_eq : ∀ {items : List Json} {room : ℕ}, itemsNesting items ≤ room →
    parsedItemsWithin items room = parsedItems items
  | [], _, _ => rfl
  | item :: items, _, h => by
    simp only [itemsNesting, Nat.max_le] at h
    rw [parsedItemsWithin, parsedItems, parsedWithin_eq h.1, parsedItemsWithin_eq h.2]

/-- So can members. -/
theorem parsedMembersWithin_eq : ∀ {members : List (String × Json)} {room : ℕ}, membersNesting members ≤ room →
    parsedMembersWithin members room = parsedMembers members
  | [], _, _ => rfl
  | (key, value) :: members, _, h => by
    simp only [membersNesting, Nat.max_le] at h
    rw [parsedMembersWithin, parsedMembers, parsedWithin_eq h.1, parsedMembersWithin_eq h.2]

end

end Json

namespace Parsed

open Json

/-- What the parser makes of a value that is complete and of the tokens after it. -/
def continueWith (value : Parsed) : List Frame → List Token → Parsed × Bool
  | [], tokens => (value, tokens.isEmpty)
  | frame :: outer, tokens => ofTokens .separator (frame.add value :: outer) tokens

/-- A step that goes on. -/
theorem ofTokens_of_proceed {expected next : Expected} {frames inner : List Frame} {token : Token}
    (h : step expected frames token = .proceed next inner) (tokens : List Token) :
    ofTokens expected frames (token :: tokens) = ofTokens next inner tokens := by
  rw [ofTokens, h]

/-- A step that completes a value. -/
theorem ofTokens_of_complete {expected : Expected} {frames outer : List Frame} {token : Token} {value : Parsed}
    (h : step expected frames token = .complete value outer) (tokens : List Token) :
    ofTokens expected frames (token :: tokens) = continueWith value outer tokens := by
  rw [ofTokens, h]
  cases outer <;> rfl

/-- How many more levels of arrays and objects can be read. -/
def roomIn (frames : List Frame) : ℕ := maxDepth - frames.length

/-- An array or object that is closed can be read if there was room for it. -/
theorem closing_eq (frame : Frame) (outer : List Frame) :
    closing frame outer = if roomIn outer = 0 then .unreadable else frame.toParsed true := by
  have hroom : (outer.drop (maxDepth - 1)).isEmpty = true ↔ ¬roomIn outer = 0 := by
    rw [List.isEmpty_iff, List.drop_eq_nil_iff, roomIn, maxDepth]
    omega
  by_cases h : roomIn outer = 0
  · rw [closing, if_neg (mt hroom.1 (not_not_intro h)), if_pos h]
  · rw [closing, if_pos (hroom.2 h), if_neg h]

/-- The tree of an array that is closed. -/
theorem closing_array (items : List Json) (outer : List Frame) :
    closing (.array (parsedItemsWithin items (roomIn outer - 1)).reverse) outer =
      (Json.array items).parsedWithin (roomIn outer) := by
  rw [closing_eq, parsedWithin, Frame.toParsed, List.reverse_reverse]

/-- The tree of an object that is closed. -/
theorem closing_object (members : List (String × Json)) (key : Option String) (outer : List Frame) :
    closing (.object (parsedMembersWithin members (roomIn outer - 1)).reverse key) outer =
      (Json.object members).parsedWithin (roomIn outer) := by
  rw [closing_eq, parsedWithin, Frame.toParsed, List.reverse_reverse]

/-- There is one level less in an array or object. -/
theorem roomIn_cons (frame : Frame) (outer : List Frame) : roomIn (frame :: outer) = roomIn outer - 1 := by
  rw [roomIn, roomIn, List.length_cons]
  omega

/-- Items are found one after the other. -/
theorem parsedItemsWithin_append (items others : List Json) (room : ℕ) :
    parsedItemsWithin (items ++ others) room = parsedItemsWithin items room ++ parsedItemsWithin others room := by
  induction items with
  | nil => rfl
  | cons item items ih => rw [List.cons_append, parsedItemsWithin, parsedItemsWithin, ih, List.cons_append]

/-- Members are found one after the other. -/
theorem parsedMembersWithin_append (members others : List (String × Json)) (room : ℕ) :
    parsedMembersWithin (members ++ others) room =
      parsedMembersWithin members room ++ parsedMembersWithin others room := by
  induction members with
  | nil => rfl
  | cons member members ih => rw [List.cons_append, parsedMembersWithin, parsedMembersWithin, ih, List.cons_append]

/-- The array that is open after some of its items. -/
def openArray (before : List Json) (outer : List Frame) : List Frame :=
  .array (parsedItemsWithin before (roomIn outer - 1)).reverse :: outer

/-- The object that is open after some of its members. -/
def openObject (before : List (String × Json)) (key : Option String) (outer : List Frame) : List Frame :=
  .object (parsedMembersWithin before (roomIn outer - 1)).reverse key :: outer

/-- The parser goes on behind an item. -/
theorem continueWith_openArray (item : Json) (before : List Json) (outer : List Frame) (tokens : List Token) :
    continueWith (item.parsedWithin (roomIn (openArray before outer))) (openArray before outer) tokens =
      ofTokens .separator (openArray (before ++ [item]) outer) tokens := by
  rw [openArray, roomIn_cons, continueWith, openArray, parsedItemsWithin_append, List.reverse_append]
  rfl

/-- The parser goes on behind a member. -/
theorem continueWith_openObject (key : String) (value : Json) (before : List (String × Json)) (outer : List Frame)
    (tokens : List Token) :
    continueWith (value.parsedWithin (roomIn (openObject before (some key) outer))) (openObject before (some key) outer)
        tokens =
      ofTokens .separator (openObject (before ++ [(key, value)]) none outer) tokens := by
  rw [openObject, roomIn_cons, continueWith, openObject, parsedMembersWithin_append, List.reverse_append]
  rfl

/-- An opening bracket opens an array, wherever a value may come. -/
theorem ofTokens_openArray {expected : Expected} (h : expected = .value ∨ expected = .firstItem) (frames : List Frame)
    (tokens : List Token) :
    ofTokens expected frames (.openArray :: tokens) = ofTokens .firstItem (openArray [] frames) tokens := by
  rcases h with rfl | rfl <;> exact ofTokens_of_proceed rfl tokens

/-- An opening bracket opens an object, wherever a value may come. -/
theorem ofTokens_openObject {expected : Expected} (h : expected = .value ∨ expected = .firstItem) (frames : List Frame)
    (tokens : List Token) :
    ofTokens expected frames (.openObject :: tokens) = ofTokens .firstKey (openObject [] none frames) tokens := by
  rcases h with rfl | rfl <;> exact ofTokens_of_proceed rfl tokens

/-- A key and a colon name the member whose value comes next. -/
theorem ofTokens_key {expected : Expected} (h : expected = .key ∨ expected = .firstKey) (key : String)
    (before : List (String × Json)) (outer : List Frame) (tokens : List Token) :
    ofTokens expected (openObject before none outer) (.string key :: .colon :: tokens) =
      ofTokens .value (openObject before (some key) outer) tokens := by
  rcases h with rfl | rfl <;> exact (ofTokens_of_proceed rfl _).trans (ofTokens_of_proceed rfl tokens)

-- The induction is on the value, for all open arrays and objects at once: inside one of them there is one level less room,
-- and what it holds so far are the trees of the items or members before.
mutual

/-- The tokens of a value make its tree, and the parser goes on behind it. -/
theorem ofTokens_tokens : ∀ (value : Json) {expected : Expected} (frames : List Frame) (more : List Token),
    expected = .value ∨ expected = .firstItem →
    ofTokens expected frames (value.tokens ++ more) = continueWith (value.parsedWithin (roomIn frames)) frames more
  | .null, _, frames, more, h => by
    rcases h with rfl | rfl <;> exact ofTokens_of_complete rfl more
  | .bool b, _, frames, more, h => by
    rcases h with rfl | rfl <;> exact ofTokens_of_complete rfl more
  | .number n, _, frames, more, h => by
    rcases h with rfl | rfl <;> exact ofTokens_of_complete rfl more
  | .string s, _, frames, more, h => by
    rcases h with rfl | rfl <;> exact ofTokens_of_complete rfl more
  | .array [], _, frames, more, h => by
    rw [← closing_array, tokens, List.cons_append, ofTokens_openArray h]
    exact ofTokens_of_complete rfl more
  | .array (item :: items), _, frames, more, h => by
    rw [tokens, List.cons_append, List.append_assoc, ofTokens_openArray h, ofTokens_tokens item _ _ (.inr rfl),
      continueWith_openArray, List.append_assoc, ofTokens_itemTokens]
    rfl
  | .object [], _, frames, more, h => by
    rw [← closing_object [] none, tokens, List.cons_append, ofTokens_openObject h]
    exact ofTokens_of_complete rfl more
  | .object ((key, value) :: members), _, frames, more, h => by
    rw [tokens, List.cons_append, List.cons_append, List.cons_append, List.append_assoc, ofTokens_openObject h,
      ofTokens_key (.inr rfl), ofTokens_tokens value _ _ (.inl rfl), continueWith_openObject, List.append_assoc,
      ofTokens_memberTokens]
    rfl

/-- The tokens of the items after some, and a closing bracket, end the array. -/
theorem ofTokens_itemTokens : ∀ (items before : List Json) (outer : List Frame) (more : List Token),
    ofTokens .separator (openArray before outer) (itemTokens items ++ ([.closeArray] ++ more)) =
      continueWith ((Json.array (before ++ items)).parsedWithin (roomIn outer)) outer more
  | [], before, outer, more => by
    rw [← closing_array, List.append_nil]
    exact ofTokens_of_complete rfl more
  | item :: items, before, outer, more => by
    have hcomma : ∀ tokens, ofTokens .separator (openArray before outer) (.comma :: tokens) =
        ofTokens .value (openArray before outer) tokens := ofTokens_of_proceed rfl
    rw [itemTokens, List.cons_append, hcomma, List.append_assoc, ofTokens_tokens item _ _ (.inl rfl),
      continueWith_openArray, ofTokens_itemTokens, List.append_assoc, List.singleton_append]

/-- The tokens of the members after some, and a closing bracket, end the object. -/
theorem ofTokens_memberTokens : ∀ (members before : List (String × Json)) (outer : List Frame) (more : List Token),
    ofTokens .separator (openObject before none outer) (memberTokens members ++ ([.closeObject] ++ more)) =
      continueWith ((Json.object (before ++ members)).parsedWithin (roomIn outer)) outer more
  | [], before, outer, more => by
    rw [← closing_object _ none, List.append_nil]
    exact ofTokens_of_complete rfl more
  | (key, value) :: members, before, outer, more => by
    have hcomma : ∀ tokens, ofTokens .separator (openObject before none outer) (.comma :: tokens) =
        ofTokens .key (openObject before none outer) tokens := ofTokens_of_proceed rfl
    rw [memberTokens, List.cons_append, List.cons_append, List.cons_append, hcomma, List.append_assoc,
      ofTokens_key (.inl rfl), ofTokens_tokens value _ _ (.inl rfl), continueWith_openObject, ofTokens_memberTokens,
      List.append_assoc, List.singleton_append]

end

/-- The tree of the text of a value is that of the value that comes back, as deep as a text may nest it. -/
theorem ofText_print {value back : Json} (h : value.recoded? = some back) :
    ofText value.print = (back.parsedWithin maxDepth, true) := by
  have htree := ofTokens_tokens back [] [] (.inl rfl)
  rw [List.append_nil] at htree
  rw [ofText, Json.ofText_print h, htree]
  rfl

end Parsed

/-- A value is read from its text as the tree of the value that comes back. -/
theorem Reader.ofText_print {α : Type} (reader : Reader α) {value back : Json} (h : value.recoded? = some back) :
    reader.ofText value.print = reader (back.parsedWithin Parsed.maxDepth) := by
  rw [ofText, Parsed.ofText_print h]
  change (reader (back.parsedWithin Parsed.maxDepth)).bind (fun value => .ok value) = _
  cases reader (back.parsedWithin Parsed.maxDepth) <;> rfl

end TradeIn
