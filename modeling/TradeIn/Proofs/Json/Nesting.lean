import TradeIn.Proofs.Json.Codec

/-!
# How deep a text can nest what is read from it

While a text is read there is less room for more levels in each array or object that is open, so nothing that can be read
is nested deeper than a text may nest it (`Parsed.fits_ofText`), and what is read from a part of it is nested less.
-/

namespace TradeIn

namespace Parsed

mutual

/-- The arrays and objects of a tree that can be read are nested no deeper than so many levels. -/
def Fits : Parsed → (room : ℕ) → Prop
  | array items _, room => 0 < room ∧ ItemsFit items (room - 1)
  | object members _, room => 0 < room ∧ MembersFit members (room - 1)
  | _, _ => True

/-- So are those of the items of an array. -/
def ItemsFit : List Parsed → (room : ℕ) → Prop
  | [], _ => True
  | item :: items, room => item.Fits room ∧ ItemsFit items room

/-- So are those of the members of an object. -/
def MembersFit : List (Option String × Parsed) → (room : ℕ) → Prop
  | [], _ => True
  | (_, value) :: members, room => value.Fits room ∧ MembersFit members room

end

variable {parsed part : Parsed} {items : List Parsed} {members : List (Option String × Parsed)} {room : ℕ}

/-- Items fit together when each of them does. -/
theorem itemsFit_iff : ItemsFit items room ↔ ∀ item ∈ items, item.Fits room := by
  induction items with
  | nil => simp [ItemsFit]
  | cons item items ih => simp [ItemsFit, ih]

/-- Members fit together when the value of each does. -/
theorem membersFit_iff : MembersFit members room ↔ ∀ member ∈ members, member.2.Fits room := by
  induction members with
  | nil => simp [MembersFit]
  | cons member members ih => simp [MembersFit, ih]

/-- There is one level less for a part of an array or object. -/
theorem Fits.of_mem_parts (h : parsed.Fits room) (hpart : part ∈ parsed.parts) : 0 < room ∧ part.Fits (room - 1) := by
  cases parsed with
  | array items closed =>
    simp only [Fits] at h
    exact ⟨h.1, itemsFit_iff.1 h.2 part hpart⟩
  | object members closed =>
    simp only [Fits] at h
    obtain ⟨member, hmember, rfl⟩ := List.mem_map.1 hpart
    exact ⟨h.1, membersFit_iff.1 h.2 member hmember⟩
  | null | bool | number | string | unreadable | broken => cases hpart

end Parsed

namespace Json

variable {members : List (String × Json)} {room : ℕ}

/-- Members are nested no deeper than the value of the deepest of them. -/
theorem membersNesting_le_iff : membersNesting members ≤ room ↔ ∀ member ∈ members, member.2.nesting ≤ room := by
  induction members with
  | nil => simp [membersNesting]
  | cons member members ih => simp [membersNesting, ih]

mutual

/-- The tree of a value fits as many levels as the value has. -/
theorem fits_parsed : ∀ {value : Json} {room : ℕ}, value.nesting ≤ room → value.parsed.Fits room
  | .null, _, _ => trivial
  | .bool _, _, _ => trivial
  | .number _, _, _ => trivial
  | .string _, _, _ => trivial
  | .array items, room, h => by
    rw [nesting] at h
    rw [parsed, Parsed.Fits]
    exact ⟨by omega, itemsFit_parsedItems (by omega)⟩
  | .object members, room, h => by
    rw [nesting] at h
    rw [parsed, Parsed.Fits]
    exact ⟨by omega, membersFit_parsedMembers (by omega)⟩

/-- So do the trees of items. -/
theorem itemsFit_parsedItems : ∀ {items : List Json} {room : ℕ}, itemsNesting items ≤ room →
    Parsed.ItemsFit (parsedItems items) room
  | [], _, _ => trivial
  | item :: items, _, h => by
    simp only [itemsNesting, Nat.max_le] at h
    exact ⟨fits_parsed h.1, itemsFit_parsedItems h.2⟩

/-- So do the trees of members. -/
theorem membersFit_parsedMembers : ∀ {members : List (String × Json)} {room : ℕ}, membersNesting members ≤ room →
    Parsed.MembersFit (parsedMembers members) room
  | [], _, _ => trivial
  | (_, value) :: members, _, h => by
    simp only [membersNesting, Nat.max_le] at h
    exact ⟨fits_parsed h.1, membersFit_parsedMembers h.2⟩

end

end Json

namespace Parsed

variable {parsed part value : Parsed} {room : ℕ} {frame : Frame} {frames outer : List Frame}
  {expected next : Expected} {token : Token}

mutual

/-- What is read from a tree is nested no deeper than the tree. -/
theorem Fits.nesting_le : ∀ {parsed : Parsed} {value : Json} {room : ℕ}, parsed.Fits room →
    parsed.toJson = .ok value → value.nesting ≤ room
  | .null, _, _, _, h => by cases h; exact Nat.zero_le _
  | .bool _, _, _, _, h => by cases h; exact Nat.zero_le _
  | .number _, _, _, _, h => by cases h; exact Nat.zero_le _
  | .string _, _, _, _, h => by cases h; exact Nat.zero_le _
  | .array items closed, _, room, hfits, h => by
    obtain ⟨read, hitems, hvalue⟩ := exists_of_bind_eq_ok h
    obtain rfl := Except.ok.inj hvalue
    simp only [Fits] at hfits
    have hle := ItemsFit.nesting_le hfits.2 hitems
    rw [Json.nesting]
    omega
  | .object members closed, _, room, hfits, h => by
    obtain ⟨read, hmembers, hvalue⟩ := exists_of_bind_eq_ok h
    obtain rfl := Except.ok.inj hvalue
    simp only [Fits] at hfits
    have hread := Json.membersNesting_le_iff.1 (MembersFit.nesting_le hfits.2 hmembers)
    have hle : Json.membersNesting (Members.ofList read) ≤ room - 1 :=
      Json.membersNesting_le_iff.2 fun member hmember => hread member (Members.mem_of_mem_ofList hmember)
    rw [Json.nesting]
    omega
  | .unreadable, _, _, _, h => by cases h
  | .broken, _, _, _, h => by cases h

/-- So are the items that are read. -/
theorem ItemsFit.nesting_le : ∀ {items : List Parsed} {closed : Bool} {read : List Json} {room : ℕ},
    ItemsFit items room → toItems items closed = .ok read → Json.itemsNesting read ≤ room
  | [], closed, _, _, _, h => by
    cases closed <;> cases h
    exact Nat.zero_le _
  | item :: items, closed, _, room, hfits, h => by
    obtain ⟨first, hfirst, hothers⟩ := exists_of_bind_eq_ok h
    obtain ⟨rest, hrest, hread⟩ := exists_of_bind_eq_ok hothers
    obtain rfl := Except.ok.inj hread
    exact Nat.max_le.2 ⟨hfits.1.nesting_le hfirst, ItemsFit.nesting_le hfits.2 hrest⟩

/-- So are the members that are read. -/
theorem MembersFit.nesting_le : ∀ {members : List (Option String × Parsed)} {closed : Bool} {read : List (String × Json)}
    {room : ℕ}, MembersFit members room → toMembers members closed = .ok read → Json.membersNesting read ≤ room
  | [], closed, _, _, _, h => by
    cases closed <;> cases h
    exact Nat.zero_le _
  | (none, _) :: _, _, _, _, _, h => by cases h
  | (some key, value) :: members, closed, _, room, hfits, h => by
    obtain ⟨first, hfirst, hothers⟩ := exists_of_bind_eq_ok h
    obtain ⟨rest, hrest, hread⟩ := exists_of_bind_eq_ok hothers
    obtain rfl := Except.ok.inj hread
    exact Nat.max_le.2 ⟨hfits.1.nesting_le hfirst, MembersFit.nesting_le hfits.2 hrest⟩

end

/-- What is read from a part of an array or object is nested less than there is room. -/
theorem Fits.nesting_lt_of_mem_parts (h : parsed.Fits room) (hpart : part ∈ parsed.parts) {value : Json}
    (hvalue : part.toJson = .ok value) : value.nesting < room := by
  obtain ⟨hroom, hfits⟩ := h.of_mem_parts hpart
  have hle := hfits.nesting_le hvalue
  omega

/-- What an open array or object holds so far fits so many levels. -/
def Frame.Fits (room : ℕ) : Frame → Prop
  | array items => ∀ item ∈ items, item.Fits room
  | object members _ => ∀ member ∈ members, member.2.Fits room

/-- What is held by the open arrays and objects fits the room that is left in each of them. -/
def FramesFit : List Frame → Prop
  | [] => True
  | frame :: outer => frame.Fits (roomIn (frame :: outer)) ∧ FramesFit outer

/-- A value that fits is put into an array or object. -/
theorem Frame.Fits.add (h : frame.Fits room) (hvalue : value.Fits room) : (frame.add value).Fits room := by
  cases frame with
  | array items => exact List.forall_mem_cons.2 ⟨hvalue, h⟩
  | object members key => exact List.forall_mem_cons.2 ⟨hvalue, h⟩

/-- The tree of an array or object takes one level more. -/
theorem Frame.Fits.toParsed (h : frame.Fits (room - 1)) (hroom : 0 < room) (closed : Bool) :
    (frame.toParsed closed).Fits room := by
  cases frame with
  | array items => exact ⟨hroom, itemsFit_iff.2 fun item hitem => h item (List.mem_reverse.1 hitem)⟩
  | object members key => exact ⟨hroom, membersFit_iff.2 fun member hmember => h member (List.mem_reverse.1 hmember)⟩

/-- An array or object that is closed fits, or cannot be read. -/
theorem FramesFit.closing (h : FramesFit (frame :: outer)) : (Parsed.closing frame outer).Fits (roomIn outer) := by
  rw [closing_eq]
  split
  · trivial
  · next hroom =>
    have hframe := h.1
    rw [roomIn_cons] at hframe
    exact hframe.toParsed (Nat.pos_of_ne_zero hroom) true

/-- A tree that breaks off inside open arrays and objects fits a text. -/
theorem FramesFit.unwind {inner : Parsed} (h : FramesFit frames) (hinner : inner.Fits (roomIn frames))
    (hlength : frames.length ≤ maxDepth) : (Parsed.unwind inner frames).Fits maxDepth := by
  induction frames generalizing inner with
  | nil => exact hinner
  | cons frame outer ih =>
    rw [List.length_cons] at hlength
    have hframe := h.1.add hinner
    rw [roomIn_cons] at hframe
    refine ih h.2 (hframe.toParsed ?_ false) (by omega)
    rw [roomIn]
    omega

/-- The outer ones of the open arrays and objects fit. -/
theorem FramesFit.drop (h : FramesFit frames) (n : ℕ) : FramesFit (frames.drop n) := by
  induction frames generalizing n with
  | nil => simpa using h
  | cons frame outer ih =>
    cases n with
    | zero => exact h
    | succ n => exact ih h.2 n

/-- Where a text breaks off there is nothing to be read. -/
theorem fits_broken (room : ℕ) : broken.Fits room := trivial

/-- So does the tree of a text that breaks off. -/
theorem FramesFit.breakOff (h : FramesFit frames) (expected : Expected) :
    (Parsed.breakOff expected frames).Fits maxDepth := by
  rw [Parsed.breakOff.eq_def]
  split
  · have hlength : (frames.drop (frames.length - maxDepth)).length ≤ maxDepth := by
      rw [List.length_drop]
      omega
    generalize frames.length - maxDepth = n at hlength ⊢
    exact (h.drop n).unwind (fits_broken _) hlength
  · next hdepth =>
    have hclosed : ∀ frame outer, frames = frame :: outer →
        (Parsed.unwind (frame.toParsed false) outer).Fits maxDepth := by
      rintro frame outer rfl
      rw [List.length_cons] at hdepth
      have hframe := h.1
      rw [roomIn_cons] at hframe
      refine h.2.unwind (hframe.toParsed ?_ false) (by omega)
      rw [roomIn]
      omega
    split
    · exact hclosed _ _ rfl
    · exact hclosed _ _ rfl
    · exact hclosed _ _ rfl
    · exact h.unwind (fits_broken _) (by omega)

/-- A token that is a value of its own fits anywhere. -/
theorem fits_of_ofToken? (h : ofToken? token = some value) (room : ℕ) : value.Fits room := by
  cases token <;> cases h <;> trivial

/-- A value that fits is put into the innermost of the open arrays and objects. -/
theorem FramesFit.add (h : FramesFit (frame :: outer)) (hvalue : value.Fits (roomIn (frame :: outer))) :
    FramesFit (frame.add value :: outer) := by
  have hframe := h.1.add hvalue
  rw [roomIn_cons] at hframe
  refine ⟨?_, h.2⟩
  rwa [roomIn_cons]

/-- A token after which the parser goes on leaves open arrays and objects that fit. -/
theorem FramesFit.of_proceed (h : FramesFit frames) (hstep : step expected frames token = .proceed next outer) :
    FramesFit outer := by
  unfold step at hstep
  split at hstep <;> (try split at hstep) <;> cases hstep
  -- A comma or a colon changes nothing, a key names the next member, and a bracket opens an array or object.
  · exact h
  · exact h
  · exact h
  · exact ⟨h.1, h.2⟩
  · exact ⟨h.1, h.2⟩
  all_goals exact ⟨List.forall_mem_nil _, h⟩

/-- A token that completes a value leaves one that fits. -/
theorem FramesFit.of_complete (h : FramesFit frames) (hstep : step expected frames token = .complete value outer) :
    value.Fits (roomIn outer) ∧ FramesFit outer := by
  unfold step at hstep
  split at hstep <;> (try split at hstep) <;> cases hstep
  -- It is a closing bracket or a value of its own.
  · exact ⟨h.closing, h.2⟩
  · exact ⟨h.closing, h.2⟩
  · exact ⟨h.closing, h.2⟩
  · exact ⟨h.closing, h.2⟩
  all_goals exact ⟨fits_of_ofToken? ‹_› _, h⟩

/-- The tree of tokens that are read inside open arrays and objects fits a text. -/
theorem FramesFit.ofTokens (h : FramesFit frames) (expected : Expected) (tokens : List Token) :
    (Parsed.ofTokens expected frames tokens).1.Fits maxDepth := by
  induction tokens generalizing expected frames with
  | nil => exact h.breakOff expected
  | cons token tokens ih =>
    rw [Parsed.ofTokens]
    cases hstep : step expected frames token with
    | proceed next inner => exact ih (h.of_proceed hstep) next
    | complete value outer =>
      obtain ⟨hvalue, houter⟩ := h.of_complete hstep
      cases outer with
      | nil => exact hvalue
      | cons frame outer => exact ih (houter.add hvalue) .separator
    | unexpected => exact h.breakOff expected

/-- The tree of a text is nested no deeper than a text may be. -/
theorem fits_ofText (text : String) : (ofText text).1.Fits maxDepth := by
  have hnew : FramesFit [] := trivial
  exact hnew.ofTokens .value _

end Parsed

/-- What is read from a text is read from a tree that is nested no deeper than a text may be. -/
theorem Reader.exists_fits_of_ofText {α : Type} {reader : Reader α} {text : String} {x : α}
    (h : reader.ofText text = .ok x) : ∃ parsed, parsed.Fits Parsed.maxDepth ∧ reader parsed = .ok x := by
  obtain ⟨value, hvalue, hcomplete⟩ := exists_of_bind_eq_ok h
  refine ⟨_, Parsed.fits_ofText text, ?_⟩
  split at hcomplete
  · rwa [← Except.ok.inj hcomplete]
  · cases hcomplete

end TradeIn
