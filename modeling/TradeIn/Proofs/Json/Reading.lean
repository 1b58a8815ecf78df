import TradeIn.Json.Record

/-!
# What reading gives

A value that is read is well formed, and so is every part of a well formed value. A record that was written as an
object is read field by field: every field finds the member of its name, and members that belong to no field are
passed over (`RecordReader.read_parsed_object`).
-/

namespace TradeIn

/-- Two steps that succeed together succeed one after the other. -/
theorem exists_of_bind_eq_ok {ε α β : Type} {first : Except ε α} {next : α → Except ε β} {y : β}
    (h : (do next (← first)) = .ok y) : ∃ x, first = .ok x ∧ next x = .ok y := by
  cases first with
  | error error => cases h
  | ok x => exact ⟨x, rfl, h⟩

/-- What has a result has succeeded. -/
theorem eq_ok_of_toOption {ε α : Type} {result : Except ε α} {value : α} (h : result.toOption = some value) :
    result = .ok value := by
  cases result with
  | error error => cases h
  | ok found =>
    cases h
    rfl

namespace Json

variable {value part : Json} {items : List Json} {members : List (String × Json)} {key : String}

/-- Items are well formed together when each of them is. -/
theorem itemsWellFormed_iff : ItemsWellFormed items ↔ ∀ item ∈ items, item.WellFormed := by
  induction items with
  | nil => simp [ItemsWellFormed]
  | cons item items ih => simp [ItemsWellFormed, ih]

/-- The values of members are well formed together when each of them is. -/
theorem membersWellFormed_iff : MembersWellFormed members ↔ ∀ member ∈ members, member.2.WellFormed := by
  induction members with
  | nil => simp [MembersWellFormed]
  | cons member members ih => simp [MembersWellFormed, ih]

/-- The value of a key is one of the members. -/
theorem mem_of_get? {α : Type} {members : Members α} {value : α} (h : Members.get? members key = some value) :
    (key, value) ∈ members := by
  obtain ⟨before, after, heq, _⟩ := List.lookup_eq_some_iff.1 h
  simp [heq]

/-- The value of a key in a well formed value is well formed. -/
theorem WellFormed.get? (h : value.WellFormed) (hpart : value.get? key = some part) : part.WellFormed := by
  cases value with
  | object members =>
    simp only [WellFormed] at h
    exact membersWellFormed_iff.1 h.2 _ (mem_of_get? hpart)
  | null | bool | number | string | array => cases hpart

end Json

namespace Members

variable {α : Type} {members : Members α}

/-- Bringing members into order brings in no others. -/
theorem mem_of_mem_insertNew {key : String} {value : α} {member : String × α}
    (h : member ∈ insertNew key value members) : member = (key, value) ∨ member ∈ members := by
  induction members with
  | nil => simpa [insertNew] using h
  | cons first rest ih =>
    obtain ⟨k, v⟩ := first
    simp only [insertNew] at h
    split at h
    · simpa using h
    · split at h
      · exact .inr h
      · rcases List.mem_cons.1 h with rfl | h
        · exact .inr List.mem_cons_self
        · exact (ih h).imp_right (List.mem_cons_of_mem _)

/-- The members in key order are some of the members. -/
theorem mem_of_mem_ofList {member : String × α} {members : List (String × α)} (h : member ∈ ofList members) :
    member ∈ members := by
  induction members with
  | nil => exact h
  | cons first rest ih =>
    rcases mem_of_mem_insertNew h with rfl | h
    · exact List.mem_cons_self
    · exact List.mem_cons_of_mem _ (ih h)

/-- Members that keep their keys keep their order. -/
theorem sorted_filterMap {β : Type} {f : String × α → Option (String × β)}
    (hkey : ∀ member kept, f member = some kept → kept.1 = member.1) (h : Sorted members) :
    Sorted (members.filterMap f) := by
  rw [Sorted, List.pairwise_map] at h ⊢
  apply h.filterMap f
  intro a b hlt a' ha b' hb
  rw [hkey a a' ha, hkey b b' hb]
  exact hlt

end Members

namespace Parsed

/-- The items of an array or the values of the members of an object. -/
def parts : Parsed → List Parsed
  | array items _ => items
  | object members _ => members.map Prod.snd
  | _ => []

mutual

/-- A value that is read is well formed. -/
theorem wellFormed_of_toJson : ∀ {parsed : Parsed} {value : Json}, parsed.toJson = .ok value → value.WellFormed
  | .null, _, h => by cases h; trivial
  | .bool _, _, h => by cases h; trivial
  | .number _, _, h => by cases h; trivial
  | .string _, _, h => by cases h; trivial
  | .array items closed, _, h => by
    obtain ⟨read, hitems, hvalue⟩ := exists_of_bind_eq_ok h
    obtain rfl := Except.ok.inj hvalue
    unfold Json.WellFormed
    exact itemsWellFormed_of_toItems hitems
  | .object members closed, _, h => by
    obtain ⟨read, hmembers, hvalue⟩ := exists_of_bind_eq_ok h
    obtain rfl := Except.ok.inj hvalue
    have hread := Json.membersWellFormed_iff.1 (membersWellFormed_of_toMembers hmembers)
    unfold Json.WellFormed
    exact ⟨Members.sorted_ofList read,
      Json.membersWellFormed_iff.2 fun member hmember => hread member (Members.mem_of_mem_ofList hmember)⟩
  | .unreadable, _, h => by cases h
  | .broken, _, h => by cases h

/-- Items that are read are well formed. -/
theorem itemsWellFormed_of_toItems : ∀ {items : List Parsed} {closed : Bool} {read : List Json},
    toItems items closed = .ok read → Json.ItemsWellFormed read
  | [], closed, _, h => by
    cases closed <;> cases h
    trivial
  | item :: items, closed, _, h => by
    obtain ⟨first, hitem, hothers⟩ := exists_of_bind_eq_ok h
    obtain ⟨rest, hitems, hread⟩ := exists_of_bind_eq_ok hothers
    obtain rfl := Except.ok.inj hread
    exact ⟨wellFormed_of_toJson hitem, itemsWellFormed_of_toItems hitems⟩

/-- The values of members that are read are well formed. -/
theorem membersWellFormed_of_toMembers : ∀ {members : List (Option String × Parsed)} {closed : Bool}
    {read : List (String × Json)}, toMembers members closed = .ok read → Json.MembersWellFormed read
  | [], closed, _, h => by
    cases closed <;> cases h
    trivial
  | (none, _) :: _, _, _, h => by cases h
  | (some key, value) :: members, closed, _, h => by
    obtain ⟨first, hvalue, hothers⟩ := exists_of_bind_eq_ok h
    obtain ⟨rest, hmembers, hread⟩ := exists_of_bind_eq_ok hothers
    obtain rfl := Except.ok.inj hread
    exact ⟨wellFormed_of_toJson hvalue, membersWellFormed_of_toMembers hmembers⟩

end

mutual

/-- A value is passed over without a problem. -/
theorem skip_parsed : ∀ value : Json, value.parsed.skip = .ok ()
  | .null | .bool _ | .number _ | .string _ => rfl
  | .array items => skipItems_parsedItems items
  | .object members => skipMembers_parsedMembers members

/-- Items are passed over without a problem. -/
theorem skipItems_parsedItems : ∀ items : List Json, skipItems (Json.parsedItems items) true = .ok ()
  | [] => rfl
  | item :: items => by
    simp [Json.parsedItems, skipItems, skip_parsed item, skipItems_parsedItems items, bind, Except.bind]

/-- Members are passed over without a problem. -/
theorem skipMembers_parsedMembers : ∀ members : List (String × Json),
    skipMembers (Json.parsedMembers members) true = .ok ()
  | [] => rfl
  | (key, value) :: members => by
    simp [Json.parsedMembers, skipMembers, skip_parsed value, skipMembers_parsedMembers members, bind, Except.bind]

end

end Parsed

namespace Reader

variable {α β : Type} {reader : Reader β}

/-- A value that is there and can be read is read without a problem. -/
theorem eq_ok_of_ofJson? {value : Json} {x : β} (h : reader.ofJson? value = some x) : reader value.parsed = .ok x :=
  eq_ok_of_toOption h

/-- A string is read. -/
theorem string_parsed (s : String) : string (Json.string s).parsed = .ok s := rfl

/-- A signed integer is read. -/
theorem int64_parsed (n : Int64) : int64 (Json.ofInt64 n).parsed = .ok n := by
  simp [Json.ofInt64, Json.parsed, int64, numberThat]

/-- An unsigned integer is read. -/
theorem uint64_parsed (n : UInt64) : uint64 (Json.ofUInt64 n).parsed = .ok n := by
  simp [Json.ofUInt64, Json.parsed, uint64, numberThat]

/-- An array is read item by item. -/
theorem list_parsed {encode : α → Json} {decode : α → β} {xs : List α}
    (h : ∀ x ∈ xs, reader (encode x).parsed = .ok (decode x)) :
    list reader (Json.array (xs.map encode)).parsed = .ok (xs.map decode) := by
  have hitems : items reader (Json.parsedItems (xs.map encode)) true = .ok (xs.map decode) := by
    induction xs with
    | nil => rfl
    | cons x xs ih =>
      obtain ⟨hx, hxs⟩ := List.forall_mem_cons.1 h
      simp [Json.parsedItems, items, hx, ih hxs, bind, Except.bind, pure, Except.pure]
  exact hitems

/-- An object with any keys is read member by member. -/
theorem members_parsed {encode : β → Json} {members : Members β} (hsorted : Members.Sorted members)
    (h : ∀ member ∈ members, reader (encode member.2).parsed = .ok member.2) :
    Reader.members reader (Json.object (members.map fun member => (member.1, encode member.2))).parsed =
      .ok members := by
  have hentries : entries reader (Json.parsedMembers (members.map fun member => (member.1, encode member.2))) true =
      .ok members := by
    clear hsorted
    induction members with
    | nil => rfl
    | cons member rest ih =>
      obtain ⟨hmember, hrest⟩ := List.forall_mem_cons.1 h
      simp [Json.parsedMembers, entries, hmember, ih hrest, bind, Except.bind, pure, Except.pure]
  simp [Json.parsed, Reader.members, hentries, Members.ofList_eq_self hsorted, bind, Except.bind, pure, Except.pure]

end Reader

namespace RecordReader

variable {α : Type} {record : RecordReader α} {fields : List Field} {members : List (String × Json)}

/-- The members of an object pass when each key occurs once, no field is missing and each field accepts its value. -/
theorem checkMembers_parsedMembers {seen : List String} (hkeys : (members.map Prod.fst).Nodup)
    (hseen : ∀ key ∈ members.map Prod.fst, key ∉ seen)
    (hchecks : ∀ field ∈ fields, ∀ value, Members.get? members field.name = some value →
      field.check value.parsed = .ok ())
    (hpresent : ∀ field ∈ fields, field.presence = .required →
      field.name ∈ seen ∨ field.name ∈ members.map Prod.fst) :
    checkMembers fields seen (Json.parsedMembers members) true = .ok () := by
  induction members generalizing seen with
  | nil =>
    have hall : fields.all (fun field => seen.contains field.name || field.presence != .required) = true := by
      rw [List.all_eq_true]
      intro field hfield
      by_cases hrequired : field.presence = .required
      · have hmem : field.name ∈ seen := by simpa using hpresent field hfield hrequired
        simp [hmem]
      · simp [hrequired]
    rw [Json.parsedMembers, checkMembers, if_neg (by decide), if_pos hall]
  | cons member rest ih =>
    obtain ⟨key, value⟩ := member
    obtain ⟨hnew, hkeys⟩ := List.nodup_cons.1 hkeys
    obtain ⟨hkeySeen, hseen⟩ := List.forall_mem_cons.1 hseen
    have hchecksRest : ∀ field ∈ fields, ∀ other, Members.get? rest field.name = some other →
        field.check other.parsed = .ok () := by
      intro field hfield other hother
      have hne : field.name ≠ key := by
        rintro rfl
        exact hnew (List.mem_map.2 ⟨_, Json.mem_of_get? hother, rfl⟩)
      exact hchecks field hfield other (by rw [Members.get?_cons, if_neg hne, hother])
    rw [Json.parsedMembers, checkMembers]
    cases hfind : fields.find? fun field => field.name == key with
    | none =>
      simp only [Parsed.skip_parsed, bind, Except.bind]
      apply ih hkeys hseen hchecksRest
      intro field hfield hrequired
      have hne : field.name ≠ key := by simpa using List.find?_eq_none.1 hfind field hfield
      simpa [hne] using hpresent field hfield hrequired
    | some field =>
      have hname : field.name = key := by simpa using List.find?_some hfind
      have hcheck := hchecks field (List.mem_of_find?_eq_some hfind) value (by rw [Members.get?_cons, if_pos hname])
      simp only [List.contains_iff_mem, hkeySeen, if_false, hcheck, bind, Except.bind]
      refine ih hkeys ?_ hchecksRest ?_
      · intro other hother hmem
        rcases List.mem_cons.1 hmem with rfl | hmem
        · exact hnew hother
        · exact hseen other hother hmem
      · intro other hother hrequired
        rcases hpresent other hother hrequired with hin | hin
        · exact .inl (List.mem_cons_of_mem _ hin)
        · rcases List.mem_cons.1 hin with rfl | hin
          · exact .inl List.mem_cons_self
          · exact .inr hin

/-- A record is read from an object by looking up each field. -/
theorem read_parsed_object (hkeys : (members.map Prod.fst).Nodup)
    (hchecks : ∀ field ∈ record.fields, ∀ value, Members.get? members field.name = some value →
      field.check value.parsed = .ok ())
    (hpresent : ∀ field ∈ record.fields, field.presence = .required → field.name ∈ members.map Prod.fst) :
    record.read (Json.object members).parsed = record.build fun key => (Members.get? members key).map Json.parsed := by
  have hcheck : checkMembers record.fields [] (Json.parsedMembers members) true = .ok () :=
    checkMembers_parsedMembers hkeys (by simp) hchecks fun field hfield hrequired =>
      .inr (hpresent field hfield hrequired)
  have hmember : member? (Json.parsedMembers members) =
      fun key => (Members.get? members key).map Json.parsed := by
    funext key
    clear hkeys hchecks hpresent hcheck
    induction members with
    | nil => rfl
    | cons member rest ih =>
      obtain ⟨k, value⟩ := member
      rw [Members.get?_cons, Json.parsedMembers, member?, List.lookup_cons]
      by_cases hkey : key = k
      · simp [hkey]
      · rw [if_neg hkey, ← ih, member?]
        simp [beq_eq_false_iff_ne.2 hkey]
  simp only [Json.parsed, read, hcheck, hmember, bind, Except.bind]

variable {β : Type} {name : String} {value : Json} {reader : Reader α} {x : α}

/-- The members hold the fields of the record, and the record that is built from them is `x`. -/
structure Reads (record : RecordReader α) (members : List (String × Json)) (x : α) : Prop where
  checks : ∀ field ∈ record.fields, ∀ value, Members.get? members field.name = some value →
    field.check value.parsed = .ok ()
  present : ∀ field ∈ record.fields, field.presence = .required → field.name ∈ members.map Prod.fst
  build_eq : (record.build fun key => (Members.get? members key).map Json.parsed) = .ok x

/-- A record with a function applied. -/
theorem Reads.map (h : record.Reads members x) (f : α → β) : (f <$> record).Reads members (f x) where
  checks := h.checks
  present := h.present
  build_eq := by
    change (record.build _).map f = _
    rw [h.build_eq]
    rfl

/-- A record with one more field. -/
theorem Reads.seq {function : RecordReader (α → β)} {f : α → β} (hfunction : function.Reads members f)
    (hargument : record.Reads members x) : (function <*> record).Reads members (f x) where
  checks field hfield := (List.mem_append.1 hfield).elim (hfunction.checks field) (hargument.checks field)
  present field hfield := (List.mem_append.1 hfield).elim (hfunction.present field) (hargument.present field)
  build_eq := by
    change (do let f ← function.build _; return f (← record.build _)) = _
    rw [hfunction.build_eq, hargument.build_eq]
    rfl

/-- A single field whose member is there is read from it. -/
private theorem reads_of_fields_eq {presence : Presence}
    (hfields : record.fields = [⟨name, checking reader, presence⟩]) (hvalue : Members.get? members name = some value)
    (hreads : reader value.parsed = .ok x)
    (hbuild : (record.build fun key => (Members.get? members key).map Json.parsed) = reader value.parsed) :
    record.Reads members x where
  checks := by
    intro field hfield other hother
    rw [hfields] at hfield
    rw [List.mem_singleton.1 hfield] at hother ⊢
    obtain rfl : value = other := Option.some.inj (hvalue.symm.trans hother)
    simp only [checking, hreads, Except.map]
  present := by
    intro field hfield _
    rw [hfields] at hfield
    rw [List.mem_singleton.1 hfield]
    exact List.mem_map.2 ⟨_, Json.mem_of_get? hvalue, rfl⟩
  build_eq := hbuild.trans hreads

/-- A field that must be there is read from its member. -/
theorem reads_required (hvalue : Members.get? members name = some value) (hreads : reader value.parsed = .ok x) :
    (required name reader).Reads members x := by
  refine reads_of_fields_eq rfl hvalue hreads ?_
  simp only [required, hvalue, Option.map_some]

/-- A field that may be left out is read from its member. -/
theorem reads_defaulted {default : α} (hvalue : Members.get? members name = some value)
    (hreads : reader value.parsed = .ok x) : (defaulted name default reader).Reads members x := by
  refine reads_of_fields_eq rfl hvalue hreads ?_
  simp only [defaulted, hvalue, Option.map_some]

/-- A field that may be null or left out is read from its member. -/
theorem reads_optional {x : Option α} (hvalue : Members.get? members name = some value)
    (hreads : reader.nullable value.parsed = .ok x) : (optional name reader).Reads members x := by
  refine reads_of_fields_eq rfl hvalue hreads ?_
  simp only [optional, absentable, hvalue, Option.map_some]

/-- A field that is left out has no value. -/
theorem reads_optional_none (hnone : Members.get? members name = none) : (optional name reader).Reads members none where
  checks := by
    intro field hfield other hother
    rw [List.mem_singleton.1 hfield, hnone] at hother
    cases hother
  present := by
    intro field hfield hrequired
    rw [List.mem_singleton.1 hfield] at hrequired
    cases hrequired
  build_eq := by simp only [optional, absentable, hnone, Option.map_none]

/-- A record is read from an object whose members hold its fields, each key once. -/
theorem Reads.read_eq (h : record.Reads members x) (hkeys : (members.map Prod.fst).Nodup) :
    record.read (Json.object members).parsed = .ok x := by
  rw [read_parsed_object hkeys h.checks h.present, h.build_eq]

/-- A record that is read is built from values that stand in what it is read from. -/
theorem exists_build_of_read {parsed : Parsed} (h : record.read parsed = .ok x) :
    ∃ find, (∀ name part, find name = some part → part ∈ parsed.parts) ∧ record.build find = .ok x := by
  cases parsed with
  | object members closed =>
    obtain ⟨_, -, hbuild⟩ := exists_of_bind_eq_ok h
    refine ⟨_, fun name part hpart => ?_, hbuild⟩
    obtain ⟨before, after, rfl, -⟩ := List.lookup_eq_some_iff.1 hpart
    simp [Parsed.parts]
  | array items closed =>
    obtain ⟨_, -, hbuild⟩ := exists_of_bind_eq_ok h
    refine ⟨_, fun name part hpart => ?_, hbuild⟩
    obtain ⟨before, after, hzip, -⟩ := List.lookup_eq_some_iff.1 hpart
    have hmem : (name, part) ∈ (record.fields.map Field.name).zip items := by simp [hzip]
    exact (List.of_mem_zip hmem).2
  | null | bool | number | string | unreadable | broken => cases h

/-- A record with one more field is built from the record and the field. -/
theorem build_seq_eq_ok {function : RecordReader (α → β)} {find : String → Option Parsed} {y : β}
    (h : (function <*> record).build find = .ok y) :
    ∃ f x, function.build find = .ok f ∧ record.build find = .ok x ∧ f x = y := by
  obtain ⟨f, hfunction, hargument⟩ := exists_of_bind_eq_ok h
  obtain ⟨x, hrecord, hy⟩ := exists_of_bind_eq_ok hargument
  exact ⟨f, x, hfunction, hrecord, Except.ok.inj hy⟩

/-- A record with a function applied is built from the record. -/
theorem build_map_eq_ok {f : α → β} {find : String → Option Parsed} {y : β} (h : (f <$> record).build find = .ok y) :
    ∃ x, record.build find = .ok x ∧ f x = y := by
  change (record.build find).map f = .ok y at h
  cases hrecord : record.build find with
  | error fault =>
    rw [hrecord] at h
    cases h
  | ok x =>
    rw [hrecord] at h
    exact ⟨x, rfl, Except.ok.inj h⟩

/-- A field that must be there is read from the value that is found for it. -/
theorem exists_of_build_required {find : String → Option Parsed} (h : (required name reader).build find = .ok x) :
    ∃ part, find name = some part ∧ reader part = .ok x := by
  simp only [required] at h
  split at h
  · next part hpart => exact ⟨part, hpart, h⟩
  · cases h

end RecordReader

end TradeIn
