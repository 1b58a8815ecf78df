import TradeIn.Proofs.Json.Equality
import TradeIn.Proofs.Json.PrintedTree

/-!
# Reading what was written

A type is written and read alike (`IsCodec`) when every value is read from what it is written to, when what comes back from
text is again what some value is written to, and when nothing that is nested too deep is passed over. From its text such a
value is read as one that is written alike, with a number that comes back in the place of each number, and it is read as
itself exactly if all its numbers come back as they are (`IsCodec.roundTrips`).
-/

namespace TradeIn

/-- The number that comes back in the place of a number: a whole number itself, and otherwise a number that is not whole
either. -/
inductive Number.ComesBackAs : Number → Number → Prop
  | integer (value : ℤ) (inRange : -2 ^ 63 ≤ value ∧ value < 2 ^ 64) :
    ComesBackAs (.integer value inRange) (.integer value inRange)
  | binary {x y : Finite64} (h : (Number.binary x).reread? = some (.binary y)) : ComesBackAs (.binary x) (.binary y)

/-- What comes back is of the same kind. -/
theorem Number.comesBackAs_of_reread? {n back : Number} (h : n.reread? = some back) : n.ComesBackAs back := by
  cases n with
  | integer value inRange =>
    obtain rfl := Option.some.inj h
    exact .integer value inRange
  | binary x =>
    obtain ⟨y, rfl⟩ := exists_of_reread?_binary h
    exact .binary h

namespace Json

mutual

/-- What comes back has the same shape, and the numbers that come back. -/
theorem alikeBy_of_recoded? : ∀ {value back : Json}, value.recoded? = some back →
    value.AlikeBy Number.ComesBackAs back
  | .null, _, h => by
    obtain rfl := Option.some.inj h
    exact ⟨rfl, .nil⟩
  | .bool _, _, h => by
    obtain rfl := Option.some.inj h
    exact ⟨rfl, .nil⟩
  | .number n, _, h => by
    obtain ⟨back, hback, rfl⟩ := Option.map_eq_some_iff.1 h
    exact ⟨rfl, .cons (Number.comesBackAs_of_reread? hback) .nil⟩
  | .string _, _, h => by
    obtain rfl := Option.some.inj h
    exact ⟨rfl, .nil⟩
  | .array items, _, h => by
    obtain ⟨back, hback, rfl⟩ := Option.map_eq_some_iff.1 h
    obtain ⟨hshapes, hnumbers⟩ := alike_of_recodedItems? hback
    exact ⟨congrArg Json.array hshapes, hnumbers⟩
  | .object members, _, h => by
    obtain ⟨back, hback, rfl⟩ := Option.map_eq_some_iff.1 h
    obtain ⟨hshapes, hnumbers⟩ := alike_of_recodedMembers? hback
    exact ⟨congrArg Json.object hshapes, hnumbers⟩

/-- So have several items. -/
theorem alike_of_recodedItems? : ∀ {items back : List Json}, recodedItems? items = some back →
    itemShapes items = itemShapes back ∧ List.Forall₂ Number.ComesBackAs (itemNumbers items) (itemNumbers back)
  | [], _, h => by
    obtain rfl := Option.some.inj h
    exact ⟨rfl, .nil⟩
  | item :: items, _, h => by
    simp only [recodedItems?, bind, Option.bind_eq_some_iff, pure, Option.some.injEq] at h
    obtain ⟨first, hfirst, others, hothers, rfl⟩ := h
    obtain ⟨hshape, hnumbers⟩ := alikeBy_of_recoded? hfirst
    obtain ⟨hshapes, hrest⟩ := alike_of_recodedItems? hothers
    exact ⟨congrArg₂ List.cons hshape hshapes, List.rel_append hnumbers hrest⟩

/-- So have several members, under their keys. -/
theorem alike_of_recodedMembers? : ∀ {members back : List (String × Json)}, recodedMembers? members = some back →
    memberShapes members = memberShapes back ∧
      List.Forall₂ Number.ComesBackAs (memberNumbers members) (memberNumbers back)
  | [], _, h => by
    obtain rfl := Option.some.inj h
    exact ⟨rfl, .nil⟩
  | (key, value) :: members, _, h => by
    simp only [recodedMembers?, bind, Option.bind_eq_some_iff, pure, Option.some.injEq] at h
    obtain ⟨first, hfirst, others, hothers, rfl⟩ := h
    obtain ⟨hshape, hnumbers⟩ := alikeBy_of_recoded? hfirst
    obtain ⟨hshapes, hrest⟩ := alike_of_recodedMembers? hothers
    exact ⟨congrArg₂ List.cons (congrArg (Prod.mk key) hshape) hshapes, List.rel_append hnumbers hrest⟩

end

mutual

/-- A value comes back as it is exactly if each of its numbers does. -/
theorem recoded?_eq_self_iff : ∀ value : Json, value.recoded? = some value ↔ ∀ n ∈ value.numbers, n.reread? = some n
  | .null | .bool _ | .string _ => by simp [recoded?, numbers]
  | .number n => by simp [recoded?, numbers, Option.map_eq_some_iff]
  | .array items => by simpa [recoded?, numbers, Option.map_eq_some_iff] using recodedItems?_eq_self_iff items
  | .object members => by simpa [recoded?, numbers, Option.map_eq_some_iff] using recodedMembers?_eq_self_iff members

/-- So do several items. -/
theorem recodedItems?_eq_self_iff : ∀ items : List Json,
    recodedItems? items = some items ↔ ∀ n ∈ itemNumbers items, n.reread? = some n
  | [] => by simp [recodedItems?, itemNumbers]
  | item :: items => by
    simp only [recodedItems?, itemNumbers, bind, Option.bind_eq_some_iff, pure, Option.some.injEq, List.cons.injEq,
      List.forall_mem_append, ← recoded?_eq_self_iff item, ← recodedItems?_eq_self_iff items]
    simp

/-- So do several members. -/
theorem recodedMembers?_eq_self_iff : ∀ members : List (String × Json),
    recodedMembers? members = some members ↔ ∀ n ∈ memberNumbers members, n.reread? = some n
  | [] => by simp [recodedMembers?, memberNumbers]
  | (key, value) :: members => by
    simp only [recodedMembers?, memberNumbers, bind, Option.bind_eq_some_iff, pure, Option.some.injEq, List.cons.injEq,
      Prod.mk.injEq, true_and, List.forall_mem_append, ← recoded?_eq_self_iff value, ← recodedMembers?_eq_self_iff members]
    simp

end

mutual

/-- Values of the same shape are nested equally deep. -/
theorem nesting_shape : ∀ value : Json, value.shape.nesting = value.nesting
  | .null | .bool _ | .string _ | .number _ => rfl
  | .array items => by rw [shape, nesting, nesting, itemsNesting_shapes items]
  | .object members => by rw [shape, nesting, nesting, membersNesting_shapes members]

/-- So are items. -/
theorem itemsNesting_shapes : ∀ items : List Json, itemsNesting (itemShapes items) = itemsNesting items
  | [] => rfl
  | item :: items => by rw [itemShapes, itemsNesting, itemsNesting, nesting_shape item, itemsNesting_shapes items]

/-- So are members. -/
theorem membersNesting_shapes : ∀ members : List (String × Json),
    membersNesting (memberShapes members) = membersNesting members
  | [] => rfl
  | (_, value) :: members => by
    rw [memberShapes, membersNesting, membersNesting, nesting_shape value, membersNesting_shapes members]

end

/-- What comes back is nested as deep. -/
theorem nesting_of_recoded? {value back : Json} (h : value.recoded? = some back) : back.nesting = value.nesting := by
  rw [← nesting_shape back, ← nesting_shape value, (alikeBy_of_recoded? h).1]

mutual

/-- A value that can be read as a whole is not nested too deep. -/
theorem nesting_le_of_toJson : ∀ {value read : Json} {room : ℕ}, (value.parsedWithin room).toJson = .ok read →
    value.nesting ≤ room
  | .null, _, _, _ => Nat.zero_le _
  | .bool _, _, _, _ => Nat.zero_le _
  | .number _, _, _, _ => Nat.zero_le _
  | .string _, _, _, _ => Nat.zero_le _
  | .array items, _, room, h => by
    rw [parsedWithin] at h
    split at h
    · cases h
    · next hroom =>
      obtain ⟨_, hitems, -⟩ := exists_of_bind_eq_ok h
      have hle := itemsNesting_le_of_toItems hitems
      rw [nesting]
      omega
  | .object members, _, room, h => by
    rw [parsedWithin] at h
    split at h
    · cases h
    · next hroom =>
      obtain ⟨_, hmembers, -⟩ := exists_of_bind_eq_ok h
      have hle := membersNesting_le_of_toMembers hmembers
      rw [nesting]
      omega

/-- Nor are items. -/
theorem itemsNesting_le_of_toItems : ∀ {items read : List Json} {room : ℕ},
    Parsed.toItems (parsedItemsWithin items room) true = .ok read → itemsNesting items ≤ room
  | [], _, _, _ => Nat.zero_le _
  | item :: items, _, room, h => by
    obtain ⟨_, hfirst, hothers⟩ := exists_of_bind_eq_ok h
    obtain ⟨_, hrest, -⟩ := exists_of_bind_eq_ok hothers
    exact Nat.max_le.2 ⟨nesting_le_of_toJson hfirst, itemsNesting_le_of_toItems hrest⟩

/-- Nor are members. -/
theorem membersNesting_le_of_toMembers : ∀ {members read : List (String × Json)} {room : ℕ},
    Parsed.toMembers (parsedMembersWithin members room) true = .ok read → membersNesting members ≤ room
  | [], _, _, _ => Nat.zero_le _
  | (key, value) :: members, _, room, h => by
    obtain ⟨_, hfirst, hothers⟩ := exists_of_bind_eq_ok h
    obtain ⟨_, hrest, -⟩ := exists_of_bind_eq_ok hothers
    exact Nat.max_le.2 ⟨nesting_le_of_toJson hfirst, membersNesting_le_of_toMembers hrest⟩

end

end Json

namespace Reader

variable {α : Type} {reader : Reader α} {value : Json}

/-- The reader passes over nothing in the value: where a part of it is nested too deep, the value is refused. -/
def RefusesDeep (reader : Reader α) (value : Json) : Prop :=
  ∀ room x, reader (value.parsedWithin room) = .ok x → value.nesting ≤ room

/-- Nothing is nested in a text, a number or the like. -/
theorem refusesDeep_of_nesting (h : value.nesting = 0) : reader.RefusesDeep value :=
  fun room _ _ => h ▸ Nat.zero_le room

/-- A reader that first reads the whole value. -/
theorem refusesDeep_of_toJson (h : ∀ parsed x, reader parsed = .ok x → ∃ read, parsed.toJson = .ok read) (value : Json) :
    reader.RefusesDeep value := by
  intro room x hread
  obtain ⟨_, hjson⟩ := h _ x hread
  exact Json.nesting_le_of_toJson hjson

/-- Any value is read as a whole. -/
theorem json_refusesDeep (value : Json) : json.RefusesDeep value := refusesDeep_of_toJson (fun _ x h => ⟨x, h⟩) value

/-- A value of one of two types is first read as a whole. -/
theorem orElse_refusesDeep (first second : Reader α) (value : Json) : (orElse first second).RefusesDeep value := by
  refine refusesDeep_of_toJson (fun parsed x h => ?_) value
  obtain ⟨read, hread, -⟩ := exists_of_bind_eq_ok h
  exact ⟨read, hread⟩

/-- An array is read item by item. -/
theorem list_refusesDeep {items : List Json} (h : ∀ item ∈ items, reader.RefusesDeep item) :
    (list reader).RefusesDeep (.array items) := by
  intro room x hread
  rw [Json.parsedWithin] at hread
  split at hread
  · cases hread
  · next hroom =>
    have hitems : ∀ {items : List Json} {xs : List α}, (∀ item ∈ items, reader.RefusesDeep item) →
        Reader.items reader (Json.parsedItemsWithin items (room - 1)) true = .ok xs →
        Json.itemsNesting items ≤ room - 1 := by
      intro items
      induction items with
      | nil => exact fun _ _ => Nat.zero_le _
      | cons item items ih =>
        intro xs h hread
        obtain ⟨hfirst, hrest⟩ := List.forall_mem_cons.1 h
        obtain ⟨first, hreadFirst, hothers⟩ := exists_of_bind_eq_ok hread
        obtain ⟨_, hreadRest, -⟩ := exists_of_bind_eq_ok hothers
        exact Nat.max_le.2 ⟨hfirst _ first hreadFirst, ih hrest hreadRest⟩
    have hle := hitems h hread
    rw [Json.nesting]
    omega

/-- An object with any keys is read member by member. -/
theorem members_refusesDeep {members : List (String × Json)} (h : ∀ member ∈ members, reader.RefusesDeep member.2) :
    (Reader.members reader).RefusesDeep (.object members) := by
  intro room x hread
  rw [Json.parsedWithin] at hread
  split at hread
  · cases hread
  · next hroom =>
    have hentries : ∀ {members : List (String × Json)} {xs : List (String × α)},
        (∀ member ∈ members, reader.RefusesDeep member.2) →
        entries reader (Json.parsedMembersWithin members (room - 1)) true = .ok xs →
        Json.membersNesting members ≤ room - 1 := by
      intro members
      induction members with
      | nil => exact fun _ _ => Nat.zero_le _
      | cons member members ih =>
        intro xs h hread
        obtain ⟨hfirst, hrest⟩ := List.forall_mem_cons.1 h
        obtain ⟨first, hreadFirst, hothers⟩ := exists_of_bind_eq_ok hread
        obtain ⟨_, hreadRest, -⟩ := exists_of_bind_eq_ok hothers
        exact Nat.max_le.2 ⟨hfirst _ first hreadFirst, ih hrest hreadRest⟩
    obtain ⟨_, hreadEntries, -⟩ := exists_of_bind_eq_ok hread
    have hle := hentries h hreadEntries
    rw [Json.nesting]
    omega

end Reader

namespace RecordReader

variable {α : Type} {record : RecordReader α} {members : List (String × Json)}

/-- A member that is not passed over: nothing is nested in its value, or the field of its key refuses what is nested too
deep. -/
def Guards (fields : List Field) (member : String × Json) : Prop :=
  member.2.nesting = 0 ∨ ∃ field, fields.find? (fun field => field.name == member.1) = some field ∧
    ∀ room, field.check (member.2.parsedWithin room) = .ok () → member.2.nesting ≤ room

/-- A member whose value its field's reader does not pass over. -/
theorem guards_of_refusesDeep {β : Type} {reader : Reader β} {name : String} {value : Json} {presence : Presence}
    {fields : List Field} (hfind : fields.find? (fun field => field.name == name) = some ⟨name, checking reader, presence⟩)
    (h : reader.RefusesDeep value) : Guards fields (name, value) := by
  refine .inr ⟨_, hfind, fun room hcheck => ?_⟩
  cases hread : reader (value.parsedWithin room) with
  | error fault => simp [checking, hread, Except.map] at hcheck
  | ok x => exact h room x hread

/-- Members that pass are not nested too deep. -/
theorem membersNesting_le_of_checkMembers {fields : List Field} {seen : List String} {room : ℕ}
    (hguards : ∀ member ∈ members, Guards fields member)
    (h : checkMembers fields seen (Json.parsedMembersWithin members room) true = .ok ()) :
    Json.membersNesting members ≤ room := by
  induction members generalizing seen with
  | nil => exact Nat.zero_le _
  | cons member members ih =>
    obtain ⟨key, value⟩ := member
    obtain ⟨hfirst, hrest⟩ := List.forall_mem_cons.1 hguards
    rw [Json.parsedMembersWithin, checkMembers] at h
    cases hfind : fields.find? fun field => field.name == key with
    | none =>
      rw [hfind] at h
      obtain ⟨_, -, hothers⟩ := exists_of_bind_eq_ok h
      refine Nat.max_le.2 ⟨?_, ih hrest hothers⟩
      rcases hfirst with hflat | ⟨field, hfield, -⟩
      · exact hflat ▸ Nat.zero_le room
      · rw [hfind] at hfield
        cases hfield
    | some field =>
      rw [hfind] at h
      simp only at h
      split at h
      · cases h
      · obtain ⟨_, hcheck, hothers⟩ := exists_of_bind_eq_ok h
        refine Nat.max_le.2 ⟨?_, ih hrest hothers⟩
        rcases hfirst with hflat | ⟨other, hother, hle⟩
        · exact hflat ▸ Nat.zero_le room
        · obtain rfl : field = other := Option.some.inj (hfind.symm.trans hother)
          exact hle room hcheck

/-- A record none of whose members is passed over. -/
theorem read_refusesDeep (hguards : ∀ member ∈ members, Guards record.fields member) :
    Reader.RefusesDeep record.read (.object members) := by
  intro room x hread
  rw [Json.parsedWithin] at hread
  split at hread
  · cases hread
  · next hroom =>
    obtain ⟨_, hcheck, -⟩ := exists_of_bind_eq_ok hread
    have hle := membersNesting_le_of_checkMembers hguards hcheck
    rw [Json.nesting]
    omega

end RecordReader

variable {α : Type} {reader : Reader α} {toJson : α → Json} {Valid : α → Prop} {x : α}

/-- The values of a type are written and read alike. -/
structure IsCodec (reader : Reader α) (toJson : α → Json) (Valid : α → Prop) : Prop where
  /-- A value is read from what it is written to. -/
  read_eq : ∀ {x}, Valid x → reader (toJson x).parsed = .ok x
  /-- What comes back from text is what some value is written to. -/
  exists_of_recoded? : ∀ {x back}, Valid x → (toJson x).recoded? = some back → ∃ y, Valid y ∧ toJson y = back
  /-- Nothing in what a value is written to is passed over. -/
  refusesDeep : ∀ {x}, Valid x → reader.RefusesDeep (toJson x)

/-- What is read from what a value is written to, as it is and as a text. -/
structure RoundTrips (reader : Reader α) (toJson : α → Json) (x : α) : Prop where
  /-- The value is read from what it is written to. -/
  ofJson?_eq : reader.ofJson? (toJson x) = some x
  /-- From its text a value is read, unless it is nested too deep. -/
  exists_ofText_iff : (∃ y, reader.ofText (toJson x).print = .ok y) ↔ (toJson x).nesting ≤ Parsed.maxDepth
  /-- What is read from its text is written alike, with the numbers that come back. -/
  alikeBy_of_ofText : ∀ y, reader.ofText (toJson x).print = .ok y →
    (toJson x).AlikeBy Number.ComesBackAs (toJson y)
  /-- The value itself is read from its text exactly if it is not nested too deep and all its numbers come back. -/
  ofText_eq_iff : reader.ofText (toJson x).print = .ok x ↔
    (toJson x).nesting ≤ Parsed.maxDepth ∧ ∀ n ∈ (toJson x).numbers, n.reread? = some n

/-- From its text a value is read that is written as what comes back, unless it is nested too deep. -/
theorem IsCodec.exists_ofText (h : IsCodec reader toJson Valid) (hx : Valid x) :
    ∃ y, Valid y ∧ (toJson x).recoded? = some (toJson y) ∧
      ∀ z, reader.ofText (toJson x).print = .ok z ↔ (toJson x).nesting ≤ Parsed.maxDepth ∧ z = y := by
  obtain ⟨back, hback⟩ := (toJson x).exists_recoded?
  obtain ⟨y, hy, rfl⟩ := h.exists_of_recoded? hx hback
  have hnesting := Json.nesting_of_recoded? hback
  have hshallow : (toJson x).nesting ≤ Parsed.maxDepth → reader.ofText (toJson x).print = .ok y := by
    intro hdepth
    rw [Reader.ofText_print reader hback, Json.parsedWithin_eq (hnesting.trans_le hdepth), h.read_eq hy]
  refine ⟨y, hy, hback, fun z => ⟨fun hz => ?_, ?_⟩⟩
  · have hdepth : (toJson x).nesting ≤ Parsed.maxDepth :=
      hnesting ▸ h.refusesDeep hy _ z ((Reader.ofText_print reader hback).symm.trans hz)
    exact ⟨hdepth, Except.ok.inj (hz.symm.trans (hshallow hdepth))⟩
  · rintro ⟨hdepth, rfl⟩
    exact hshallow hdepth

/-- Every value of the type is read from what it is written to. -/
theorem IsCodec.roundTrips (h : IsCodec reader toJson Valid) (hx : Valid x) : RoundTrips reader toJson x := by
  obtain ⟨y, hy, hback, hread⟩ := h.exists_ofText hx
  have hself : x = y ↔ ∀ n ∈ (toJson x).numbers, n.reread? = some n := by
    rw [← Json.recoded?_eq_self_iff, hback]
    constructor
    · rintro rfl
      rfl
    · intro hsame
      have hwritten : toJson y = toJson x := Option.some.inj hsame
      exact Except.ok.inj ((h.read_eq hx).symm.trans (hwritten ▸ h.read_eq hy))
  refine ⟨by rw [Reader.ofJson?, h.read_eq hx, Except.toOption], ⟨?_, fun hdepth => ?_⟩, fun z hz => ?_, ?_⟩
  · rintro ⟨z, hz⟩
    exact ((hread z).1 hz).1
  · exact ⟨y, (hread y).2 ⟨hdepth, rfl⟩⟩
  · exact ((hread z).1 hz).2 ▸ Json.alikeBy_of_recoded? hback
  · rw [hread, hself]

end TradeIn
