import TradeIn.Proofs.Json.Codec
import TradeIn.Proofs.Price.Record
import TradeIn.Proofs.Rule.Record
import TradeIn.Proofs.Store.Document
import TradeIn.Quote.Basic

/-!
# Reading what is sent and stored

Rules and their drafts, device types and their drafts, filters, answers, references to rules, requests, price models and
quotes are all read from what they are written to. Their texts are read as the same values except for numbers that do not
come back from text (`DocumentType.documents_roundTrip`), so what holds no binary64 number always is.
-/

namespace TradeIn

namespace Reader

variable {α : Type} {reader : Reader α} {x : α}

/-- A value that may be missing, written as null, is read. -/
theorem nullable_parsed {encode : α → Json} (hread : ∀ x, reader (encode x).parsed = .ok x)
    (hnull : ∀ x, (encode x).parsed ≠ .null) (x : Option α) :
    reader.nullable ((x.map encode).getD .null).parsed = .ok x := by
  cases x with
  | none => rfl
  | some x =>
    have hsome : reader.nullable (encode x).parsed = (do return some (← reader (encode x).parsed)) := by
      unfold nullable
      split
      · next h => exact absurd h (hnull x)
      · rfl
    rw [Option.map_some, Option.getD_some, hsome, hread]
    rfl

/-- A string that may be missing is read. -/
theorem nullable_string_parsed (s : Option String) :
    string.nullable ((s.map Json.string).getD .null).parsed = .ok s :=
  nullable_parsed string_parsed (fun _ => Parsed.noConfusion) s

/-- What fits the first of two types is read as that. -/
theorem orElse_of_first {first second : Reader α} {value : Json} (h : first value.parsed = .ok x) :
    orElse first second value.parsed = .ok x := by
  obtain ⟨read, hwhole⟩ := Parsed.exists_toJson_parsed value
  simp [orElse, hwhole, h, bind, Except.bind]

/-- What fits the second of two types alone is read as that. -/
theorem orElse_of_second {first second : Reader α} {value : Json} {fault : Fault}
    (hfirst : first value.parsed = .error fault) (h : second value.parsed = .ok x) :
    orElse first second value.parsed = .ok x := by
  obtain ⟨read, hwhole⟩ := Parsed.exists_toJson_parsed value
  simp [orElse, hwhole, hfirst, h, bind, Except.bind]

end Reader

/-- Nothing is nested in a value that may be missing if nothing is in the value. -/
theorem Json.nesting_getD_null {α : Type} {encode : α → Json} (h : ∀ x, (encode x).nesting = 0) (x : Option α) :
    ((x.map encode).getD .null).nesting = 0 := by
  cases x with
  | none => rfl
  | some x => exact h x

/-- Nothing is nested in a binary64 number. -/
theorem Json.nesting_ofBinary64 (x : Binary64) : (Json.ofBinary64 x).nesting = 0 := by
  cases x <;> rfl

/-- Without other numbers than signed integers, a value that is not nested too deep is read from its text as it is. -/
theorem RoundTrips.ofText_eq {α : Type} {reader : Reader α} {toJson : α → Json} {x : α} (h : RoundTrips reader toJson x)
    (hdepth : (toJson x).nesting ≤ Parsed.maxDepth) (hnumbers : ∀ n ∈ (toJson x).numbers, n.int64?.isSome = true) :
    reader.ofText (toJson x).print = .ok x := by
  refine h.ofText_eq_iff.2 ⟨hdepth, fun n hn => ?_⟩
  have hwhole := hnumbers n hn
  cases n with
  | integer value inRange => rfl
  | binary value => cases hwhole

section Rules

/-- A rule is read from what it is written to. -/
theorem Rule.isCodec : IsCodec Rule.reader Rule.toJson fun rule => rule.body.WellFormed where
  read_eq hbody := Reader.eq_ok_of_ofJson? (Rule.ofJson?_toJson_of_body (Parsed.toJson_parsed _ hbody))
  exists_of_recoded? := by
    intro rule back hbody hback
    obtain ⟨body, hrecoded⟩ := rule.body.exists_recoded?
    have hsame : Rule.toJson { rule with body } = back :=
      Option.some.inj ((Rule.recoded_toJson_of_body hrecoded).symm.trans hback)
    exact ⟨_, hbody.recoded? hrecoded, hsame⟩
  refusesDeep {rule} _ := rule.refusesDeep_toJson

/-- A draft of a rule is read from what it is written to. -/
theorem RuleDraft.isCodec : IsCodec RuleDraft.reader RuleDraft.toJson fun draft => draft.body.WellFormed where
  read_eq {draft} hbody := by
    have hversion := Reader.nullable_parsed Reader.int64_parsed (fun _ => Parsed.noConfusion) draft.version
    have hisActive : Reader.bool.nullable ((draft.isActive.map Json.bool).getD .null).parsed = .ok draft.isActive :=
      Reader.nullable_parsed (fun _ => rfl) (fun _ => Parsed.noConfusion) draft.isActive
    exact RecordReader.Reads.read_eq
      ((((((RecordReader.reads_required rfl (Reader.string_parsed draft.typeAlias)).map RuleDraft.mk).seq
        (RecordReader.reads_required rfl (Reader.string_parsed draft.kind))).seq
        (RecordReader.reads_optional rfl hversion)).seq
        (RecordReader.reads_optional rfl hisActive)).seq
        (RecordReader.reads_required rfl (Parsed.toJson_parsed _ hbody))) (by simp)
  exists_of_recoded? := by
    rintro ⟨typeAlias, kind, version, isActive, body⟩ back hbody hback
    obtain ⟨read, hrecoded⟩ := body.exists_recoded?
    refine ⟨⟨typeAlias, kind, version, isActive, read⟩, hbody.recoded? hrecoded, ?_⟩
    cases version <;> cases isActive <;>
      simpa [RuleDraft.toJson, Json.recoded?, Json.recodedMembers?, hrecoded] using hback
  refusesDeep {draft} _ := by
    refine RecordReader.read_refusesDeep fun member hmember => ?_
    simp only [List.mem_cons, List.not_mem_nil, or_false] at hmember
    rcases hmember with rfl | rfl | rfl | rfl | rfl
    · exact RecordReader.guards_of_refusesDeep rfl (Reader.json_refusesDeep draft.body)
    · exact .inl (Json.nesting_getD_null (fun _ => rfl) draft.isActive)
    · exact .inl rfl
    · exact .inl rfl
    · exact .inl (Json.nesting_getD_null (fun _ => rfl) draft.version)

/-- A filter is read from what it is written to. -/
theorem RuleFilter.isCodec : IsCodec RuleFilter.reader RuleFilter.toJson fun _ => True where
  read_eq {filter} _ := by
    exact RecordReader.Reads.read_eq
      (((RecordReader.reads_optional rfl (Reader.nullable_string_parsed filter.typeAlias)).map RuleFilter.mk).seq
        (RecordReader.reads_optional rfl (Reader.nullable_string_parsed filter.kind))) (by simp)
  exists_of_recoded? := by
    rintro ⟨typeAlias, kind⟩ back _ hback
    refine ⟨⟨typeAlias, kind⟩, trivial, ?_⟩
    cases typeAlias <;> cases kind <;>
      simpa [RuleFilter.toJson, Json.recoded?, Json.recodedMembers?] using hback
  refusesDeep {filter} _ := by
    refine RecordReader.read_refusesDeep fun member hmember => ?_
    simp only [List.mem_cons, List.not_mem_nil, or_false] at hmember
    rcases hmember with rfl | rfl <;> exact .inl (Json.nesting_getD_null (fun _ => rfl) _)

/-- A filter is always read from its text. -/
theorem RuleFilter.ofText_print (filter : RuleFilter) : RuleFilter.reader.ofText filter.toJson.print = .ok filter := by
  have h := RuleFilter.isCodec.roundTrips (x := filter) trivial
  obtain ⟨_ | typeAlias, _ | kind⟩ := filter <;>
    exact h.ofText_eq (by simp [RuleFilter.toJson, Json.nesting, Json.membersNesting, Parsed.maxDepth])
      (by simp [RuleFilter.toJson, Json.numbers, Json.memberNumbers])

end Rules

section DeviceTypes

/-- A device type is read from what it is written to. -/
theorem DeviceType.isCodec : IsCodec DeviceType.reader DeviceType.toJson fun _ => True where
  read_eq {deviceType} _ := Reader.eq_ok_of_ofJson? deviceType.ofJson?_toJson
  exists_of_recoded? {deviceType _} _ hback :=
    ⟨deviceType, trivial, Option.some.inj (deviceType.recoded_toJson.symm.trans hback)⟩
  refusesDeep {deviceType} _ := by
    obtain ⟨id, code, name⟩ := deviceType
    refine RecordReader.read_refusesDeep fun member hmember => .inl ?_
    cases code <;> simp at hmember <;> rcases hmember with rfl | rfl | rfl <;> rfl

/-- A draft of a device type is read from what it is written to. -/
theorem DeviceTypeDraft.isCodec : IsCodec DeviceTypeDraft.reader DeviceTypeDraft.toJson fun _ => True where
  read_eq {draft} _ := by
    exact RecordReader.Reads.read_eq
      ((((RecordReader.reads_optional rfl (Reader.nullable_string_parsed draft.id)).map DeviceTypeDraft.mk).seq
        (RecordReader.reads_optional rfl (Reader.nullable_string_parsed draft.code))).seq
        (RecordReader.reads_required rfl (Reader.string_parsed draft.name))) (by simp)
  exists_of_recoded? := by
    rintro ⟨id, code, name⟩ back _ hback
    refine ⟨⟨id, code, name⟩, trivial, ?_⟩
    cases id <;> cases code <;>
      simpa [DeviceTypeDraft.toJson, Json.recoded?, Json.recodedMembers?] using hback
  refusesDeep {draft} _ := by
    refine RecordReader.read_refusesDeep fun member hmember => .inl ?_
    simp only [List.mem_cons, List.not_mem_nil, or_false] at hmember
    rcases hmember with rfl | rfl | rfl
    · exact Json.nesting_getD_null (fun _ => rfl) draft.code
    · exact Json.nesting_getD_null (fun _ => rfl) draft.id
    · rfl

/-- A device type is always read from its text. -/
theorem DeviceType.ofText_print (deviceType : DeviceType) : DeviceType.reader.ofText deviceType.toJson.print = .ok deviceType := by
  have h := DeviceType.isCodec.roundTrips (x := deviceType) trivial
  obtain ⟨id, _ | code, name⟩ := deviceType <;>
    exact h.ofText_eq (by simp [DeviceType.toJson, Json.nesting, Json.membersNesting, Parsed.maxDepth])
      (by simp [DeviceType.toJson, Json.numbers, Json.memberNumbers])

/-- A draft of a device type is always read from its text. -/
theorem DeviceTypeDraft.ofText_print (draft : DeviceTypeDraft) : DeviceTypeDraft.reader.ofText draft.toJson.print = .ok draft := by
  have h := DeviceTypeDraft.isCodec.roundTrips (x := draft) trivial
  obtain ⟨_ | id, _ | code, name⟩ := draft <;>
    exact h.ofText_eq (by simp [DeviceTypeDraft.toJson, Json.nesting, Json.membersNesting, Parsed.maxDepth])
      (by simp [DeviceTypeDraft.toJson, Json.numbers, Json.memberNumbers])

end DeviceTypes

section Requests

/-- Answers are read from what they are written to. -/
theorem Answers.isCodec : IsCodec Answers.reader Answers.toJson fun answers => answers.toJson.WellFormed where
  read_eq {answers} h := by
    simp only [Answers.toJson, Json.WellFormed] at h
    have hmembers := Json.membersWellFormed_iff.1 h.2
    have hread : Reader.members Reader.json (Json.object (answers.map fun member => (member.1, id member.2))).parsed =
        .ok answers :=
      Reader.members_parsed h.1 fun member hmember => Parsed.toJson_parsed member.2 (hmembers member hmember)
    have hsame : answers.map (fun member => (member.1, id member.2)) = answers := List.map_id answers
    rwa [hsame] at hread
  exists_of_recoded? {answers back} h hback := by
    obtain ⟨others, hothers, rfl⟩ := Option.map_eq_some_iff.1 hback
    exact ⟨others, h.recoded? hback, rfl⟩
  refusesDeep {answers} _ := Reader.members_refusesDeep fun member _ => Reader.json_refusesDeep member.2

/-- A reference to a rule is read from what it is written to: a pinned rule never as the rule in effect, and the rule in
effect never as a pinned rule. -/
theorem RuleReference.isCodec : IsCodec RuleReference.reader RuleReference.toJson fun _ => True where
  read_eq {reference} _ := by
    cases reference with
    | pinned id =>
      exact Reader.orElse_of_first
        (RecordReader.Reads.read_eq ((RecordReader.reads_required rfl (Reader.int64_parsed id)).map _) (by simp))
    | inEffect lookup =>
      have hpinned : pinnedReader (toJson (.inEffect lookup)).parsed = .error .mismatched := by
        obtain ⟨typeAlias, kind⟩ := lookup
        cases kind <;> rfl
      have hlookup : ActiveLookup.reader (toJson (.inEffect lookup)).parsed = .ok lookup :=
        RecordReader.Reads.read_eq
          (((RecordReader.reads_required rfl (Reader.string_parsed lookup.typeAlias)).map ActiveLookup.mk).seq
            (RecordReader.reads_optional rfl (Reader.nullable_string_parsed lookup.kind))) (by simp)
      exact Reader.orElse_of_second hpinned (by rw [hlookup]; rfl)
  exists_of_recoded? := by
    rintro reference back _ hback
    refine ⟨reference, trivial, ?_⟩
    rcases reference with id | ⟨typeAlias, _ | kind⟩ <;>
      simpa [RuleReference.toJson, ActiveLookup.toJson, Json.recoded?, Json.recodedMembers?] using hback
  refusesDeep _ := Reader.orElse_refusesDeep _ _ _

/-- A reference to a rule is always read from its text. -/
theorem RuleReference.ofText_print (reference : RuleReference) : RuleReference.reader.ofText reference.toJson.print = .ok reference := by
  have h := RuleReference.isCodec.roundTrips (x := reference) trivial
  obtain id | ⟨typeAlias, _ | kind⟩ := reference <;>
    exact h.ofText_eq (by simp [RuleReference.toJson, ActiveLookup.toJson, Json.ofInt64, Json.nesting, Json.membersNesting, Parsed.maxDepth])
      (by simp [RuleReference.toJson, ActiveLookup.toJson, Json.ofInt64, Json.numbers, Json.memberNumbers])

/-- A request is read from what it is written to. -/
theorem QuoteRequest.isCodec :
    IsCodec QuoteRequest.reader QuoteRequest.toJson fun request => request.answers.toJson.WellFormed where
  read_eq {request} h :=
    RecordReader.Reads.read_eq
      (((RecordReader.reads_defaulted rfl (Answers.isCodec.read_eq h)).map QuoteRequest.mk).seq
        (RecordReader.reads_required rfl (RuleReference.isCodec.read_eq trivial))) (by simp)
  exists_of_recoded? {request back} h hback := by
    simp only [QuoteRequest.toJson, Json.recoded?, Json.recodedMembers?, bind, Option.bind_eq_some_iff,
      Option.map_eq_some_iff, pure, Option.some.injEq] at hback
    obtain ⟨_, ⟨_, hanswers, _, ⟨_, hrule, _, rfl, rfl⟩, rfl⟩, rfl⟩ := hback
    obtain ⟨answers, hvalid, rfl⟩ := Answers.isCodec.exists_of_recoded? h hanswers
    obtain ⟨rule, -, rfl⟩ := RuleReference.isCodec.exists_of_recoded? trivial hrule
    exact ⟨⟨answers, rule⟩, hvalid, rfl⟩
  refusesDeep {request} h := by
    refine RecordReader.read_refusesDeep fun member hmember => ?_
    simp only [List.mem_cons, List.not_mem_nil, or_false] at hmember
    rcases hmember with rfl | rfl
    · exact RecordReader.guards_of_refusesDeep rfl (Answers.isCodec.refusesDeep h)
    · exact RecordReader.guards_of_refusesDeep rfl (RuleReference.isCodec.refusesDeep trivial)

end Requests

section Prices

/-- A condition is read as a whole value. -/
theorem Condition.reader_refusesDeep (value : Json) : Reader.RefusesDeep Condition.reader value := by
  refine Reader.refusesDeep_of_toJson (fun parsed x h => ?_) value
  cases hread : parsed.toJson with
  | error fault => simp [Condition.reader, hread, Except.map] at h
  | ok read => exact ⟨read, rfl⟩

/-- Nothing in an adjustment is passed over. -/
theorem Adjustment.reader_refusesDeep (adjustment : Adjustment) :
    Reader.RefusesDeep Adjustment.reader adjustment.toJson := by
  refine RecordReader.read_refusesDeep fun member hmember => ?_
  simp only [List.mem_cons, List.not_mem_nil, or_false] at hmember
  rcases hmember with rfl | rfl
  · exact RecordReader.guards_of_refusesDeep rfl (Condition.reader_refusesDeep _)
  · exact .inl (Json.nesting_ofBinary64 adjustment.delta)

/-- A model that can be recorded, and whose conditions were read from some values. -/
structure PriceModel.IsRead (model : PriceModel) : Prop where
  isRecordable : model.IsRecordable
  conditions : ∀ adjustment ∈ model.adjustments, ∃ value, adjustment.condition = .ofJson value

/-- A model whose conditions were read is recovered as it is. -/
theorem PriceModel.IsRead.recovered_eq {model : PriceModel} (h : model.IsRead) : model.recovered = model := by
  have hadjustments : model.adjustments.map Adjustment.recovered = model.adjustments := by
    refine (List.map_congr_left fun adjustment hmem => ?_).trans (List.map_id _)
    obtain ⟨value, hvalue⟩ := h.conditions adjustment hmem
    rw [Adjustment.recovered, hvalue, Condition.toJson_ofJson, ← hvalue, id]
  rw [PriceModel.recovered, hadjustments]

/-- A model that is recovered from its record can be recorded, and its conditions were read. -/
theorem PriceModel.IsRecordable.isRead_recovered {model : PriceModel} (h : model.IsRecordable) :
    model.recovered.IsRead where
  isRecordable := by
    refine ⟨h.basePrice, h.minPrice, ?_, h.perUnit, h.sorted⟩
    intro adjustment hmem
    obtain ⟨original, horiginal, rfl⟩ := List.mem_map.1 hmem
    obtain ⟨hcondition, hdelta⟩ := h.adjustments original horiginal
    exact ⟨by rwa [Adjustment.recovered, Condition.toJson_ofJson], hdelta⟩
  conditions := by
    intro adjustment hmem
    obtain ⟨original, -, rfl⟩ := List.mem_map.1 hmem
    exact ⟨_, rfl⟩

/-- A price model is read from what it is written to. -/
theorem PriceModel.isCodec : IsCodec PriceModel.reader PriceModel.toJson PriceModel.IsRead where
  read_eq h := Reader.eq_ok_of_ofJson? (h.isRecordable.ofJson?_toJson.trans (congrArg some h.recovered_eq))
  exists_of_recoded? h hback := by
    obtain ⟨other, hother, rfl⟩ := h.isRecordable.recoded_toJson hback
    exact ⟨other.recovered, hother.isRead_recovered, other.toJson_recovered⟩
  refusesDeep {model} _ := by
    refine RecordReader.read_refusesDeep fun member hmember => ?_
    simp only [List.mem_cons, List.not_mem_nil, or_false] at hmember
    rcases hmember with rfl | rfl | rfl | rfl
    · refine RecordReader.guards_of_refusesDeep rfl (Reader.list_refusesDeep fun item hitem => ?_)
      obtain ⟨adjustment, -, rfl⟩ := List.mem_map.1 hitem
      exact adjustment.reader_refusesDeep
    · exact .inl (Json.nesting_ofBinary64 model.basePrice)
    · exact .inl (Json.nesting_ofBinary64 model.minPrice)
    · refine RecordReader.guards_of_refusesDeep rfl (Reader.members_refusesDeep fun member hmember => ?_)
      obtain ⟨amount, -, rfl⟩ := List.mem_map.1 hmember
      exact Reader.refusesDeep_of_nesting (Json.nesting_ofBinary64 amount.2)

/-- A request to compute a price again is read from what it is written to. -/
theorem RecomputeRequest.isCodec : IsCodec RecomputeRequest.reader RecomputeRequest.toJson fun request =>
    request.answers.toJson.WellFormed ∧ request.ruleSnapshot.IsRead where
  read_eq {request} h :=
    RecordReader.Reads.read_eq
      ((((RecordReader.reads_defaulted rfl (Answers.isCodec.read_eq h.1)).map RecomputeRequest.mk).seq
        (RecordReader.reads_required rfl (Reader.int64_parsed request.ruleVersion))).seq
        (RecordReader.reads_required rfl (PriceModel.isCodec.read_eq h.2))) (by simp)
  exists_of_recoded? {request back} h hback := by
    simp only [RecomputeRequest.toJson, Json.recoded?, Json.recodedMembers?, bind, Option.bind_eq_some_iff,
      Option.map_eq_some_iff, pure, Option.some.injEq, Json.recoded?_ofInt64] at hback
    obtain ⟨_, ⟨_, hanswers, _, ⟨_, hmodel, _, ⟨_, rfl, _, rfl, rfl⟩, rfl⟩, rfl⟩, rfl⟩ := hback
    obtain ⟨answers, hvalid, rfl⟩ := Answers.isCodec.exists_of_recoded? h.1 hanswers
    obtain ⟨model, hread, rfl⟩ := PriceModel.isCodec.exists_of_recoded? h.2 hmodel
    exact ⟨⟨answers, request.ruleVersion, model⟩, ⟨hvalid, hread⟩, rfl⟩
  refusesDeep {request} h := by
    refine RecordReader.read_refusesDeep fun member hmember => ?_
    simp only [List.mem_cons, List.not_mem_nil, or_false] at hmember
    rcases hmember with rfl | rfl | rfl
    · exact RecordReader.guards_of_refusesDeep rfl (Answers.isCodec.refusesDeep h.1)
    · exact RecordReader.guards_of_refusesDeep rfl (PriceModel.isCodec.refusesDeep h.2)
    · exact .inl rfl

/-- A quote is read from what it is written to. -/
theorem Quote.isCodec : IsCodec Quote.reader Quote.toJson fun quote => quote.ruleSnapshot.IsRead where
  read_eq := by
    rintro ⟨prelimPrice, ruleVersion, ruleSnapshot, ruleId⟩ h
    have hsnapshot := PriceModel.isCodec.read_eq h
    cases ruleId with
    | none =>
      exact RecordReader.Reads.read_eq
        (((((RecordReader.reads_required rfl (Reader.int64_parsed prelimPrice)).map Quote.mk).seq
          (RecordReader.reads_required rfl (Reader.int64_parsed ruleVersion))).seq
          (RecordReader.reads_required rfl hsnapshot)).seq
          (RecordReader.reads_optional_none rfl)) (by simp)
    | some id =>
      have hid : Reader.int64.nullable (Json.ofInt64 id).parsed = .ok (some id) :=
        Reader.nullable_parsed Reader.int64_parsed (fun _ => Parsed.noConfusion) (some id)
      exact RecordReader.Reads.read_eq
        (((((RecordReader.reads_required rfl (Reader.int64_parsed prelimPrice)).map Quote.mk).seq
          (RecordReader.reads_required rfl (Reader.int64_parsed ruleVersion))).seq
          (RecordReader.reads_required rfl hsnapshot)).seq
          (RecordReader.reads_optional rfl hid)) (by simp)
  exists_of_recoded? := by
    rintro ⟨prelimPrice, ruleVersion, ruleSnapshot, ruleId⟩ back h hback
    obtain ⟨record, hrecord⟩ := ruleSnapshot.toJson.exists_recoded?
    obtain ⟨model, hread, rfl⟩ := PriceModel.isCodec.exists_of_recoded? h hrecord
    refine ⟨⟨prelimPrice, ruleVersion, model, ruleId⟩, hread, ?_⟩
    cases ruleId <;> simpa [Quote.toJson, Json.recoded?, Json.recodedMembers?, hrecord] using hback
  refusesDeep := by
    rintro ⟨prelimPrice, ruleVersion, ruleSnapshot, ruleId⟩ h
    refine RecordReader.read_refusesDeep fun member hmember => ?_
    rcases List.mem_append.1 hmember with hfirst | hlast
    · -- The price and the rule id are numbers.
      refine .inl ?_
      cases ruleId <;> simp at hfirst <;> rcases hfirst with rfl | rfl <;> rfl
    · simp only [List.mem_cons, List.not_mem_nil, or_false] at hlast
      rcases hlast with rfl | rfl
      · exact RecordReader.guards_of_refusesDeep rfl (PriceModel.isCodec.refusesDeep h)
      · exact .inl rfl

end Prices

/-- The types of the documents that are sent and stored. -/
inductive DocumentType where
  | rule
  | ruleDraft
  | ruleFilter
  | deviceType
  | deviceTypeDraft
  | answers
  | ruleReference
  | quoteRequest
  | priceModel
  | recomputeRequest
  | quote

namespace DocumentType

/-- The documents of a type. -/
def Document : DocumentType → Type
  | rule => Rule
  | ruleDraft => RuleDraft
  | ruleFilter => RuleFilter
  | deviceType => DeviceType
  | deviceTypeDraft => DeviceTypeDraft
  | answers => Answers
  | ruleReference => RuleReference
  | quoteRequest => QuoteRequest
  | priceModel => PriceModel
  | recomputeRequest => RecomputeRequest
  | quote => Quote

/-- Read a document. -/
def reader : (type : DocumentType) → Reader type.Document
  | rule => Rule.reader
  | ruleDraft => RuleDraft.reader
  | ruleFilter => RuleFilter.reader
  | deviceType => DeviceType.reader
  | deviceTypeDraft => DeviceTypeDraft.reader
  | answers => Answers.reader
  | ruleReference => RuleReference.reader
  | quoteRequest => QuoteRequest.reader
  | priceModel => PriceModel.reader
  | recomputeRequest => RecomputeRequest.reader
  | quote => Quote.reader

/-- Write a document. -/
def toJson : (type : DocumentType) → type.Document → Json
  | rule => Rule.toJson
  | ruleDraft => RuleDraft.toJson
  | ruleFilter => RuleFilter.toJson
  | deviceType => DeviceType.toJson
  | deviceTypeDraft => DeviceTypeDraft.toJson
  | answers => Answers.toJson
  | ruleReference => RuleReference.toJson
  | quoteRequest => QuoteRequest.toJson
  | priceModel => PriceModel.toJson
  | recomputeRequest => RecomputeRequest.toJson
  | quote => Quote.toJson

/-- The documents that can be written: bodies and answers are well formed, the numbers of a price model are finite, and
its conditions were read. -/
def IsWritable : (type : DocumentType) → type.Document → Prop
  | rule => fun document : Rule => document.body.WellFormed
  | ruleDraft => fun document : RuleDraft => document.body.WellFormed
  | ruleFilter | deviceType | deviceTypeDraft | ruleReference => fun _ => True
  | answers => fun document : Answers => document.toJson.WellFormed
  | quoteRequest => fun document : QuoteRequest => document.answers.toJson.WellFormed
  | priceModel => PriceModel.IsRead
  | recomputeRequest => fun document : RecomputeRequest =>
    document.answers.toJson.WellFormed ∧ document.ruleSnapshot.IsRead
  | quote => fun document : Quote => document.ruleSnapshot.IsRead

/-- Whether the documents hold nothing but texts and whole numbers. -/
def isPlain : DocumentType → Bool
  | ruleFilter | deviceType | deviceTypeDraft | ruleReference => true
  | _ => false

/-- A document of any type is read from what it is written to. -/
theorem isCodec : ∀ type : DocumentType, IsCodec type.reader type.toJson type.IsWritable
  | rule => Rule.isCodec
  | ruleDraft => RuleDraft.isCodec
  | ruleFilter => RuleFilter.isCodec
  | deviceType => DeviceType.isCodec
  | deviceTypeDraft => DeviceTypeDraft.isCodec
  | answers => Answers.isCodec
  | ruleReference => RuleReference.isCodec
  | quoteRequest => QuoteRequest.isCodec
  | priceModel => PriceModel.isCodec
  | recomputeRequest => RecomputeRequest.isCodec
  | quote => Quote.isCodec

/-- A document that holds nothing but texts and whole numbers is always read from its text. -/
theorem ofText_of_isPlain : ∀ {type : DocumentType} (document : type.Document), type.isPlain = true →
    type.reader.ofText (type.toJson document).print = .ok document
  | ruleFilter, document, _ => RuleFilter.ofText_print document
  | deviceType, document, _ => DeviceType.ofText_print document
  | deviceTypeDraft, document, _ => DeviceTypeDraft.ofText_print document
  | ruleReference, document, _ => RuleReference.ofText_print document

/-- Every document is read from what it is written to. From its text it is read as a document that is written alike but for
numbers that do not come back, and as itself exactly if it is not nested too deep and all its numbers come back; without
numbers that are not whole it always is. -/
theorem documents_roundTrip (type : DocumentType) (document : type.Document) (h : type.IsWritable document) :
    RoundTrips type.reader type.toJson document ∧
      (type.isPlain = true → type.reader.ofText (type.toJson document).print = .ok document) :=
  ⟨type.isCodec.roundTrips h, ofText_of_isPlain document⟩

/-- A condition on the answer to a question. -/
private def storageCondition : Json :=
  .object [("==", .array [.object [("var", .string "storage")], .number (.integer 256 (by decide))])]

/-- A base price of 500.0, a deduction of 12.5 under a condition, and 0.75 per unit of an answer. -/
private def storageModel : PriceModel where
  basePrice := .finite ⟨false, ⟨1031 * 2 ^ 52 + 61 * 2 ^ 46, by decide⟩⟩
  minPrice := .finite .zero
  adjustments := [⟨.ofJson storageCondition, .finite ⟨true, ⟨1026 * 2 ^ 52 + 9 * 2 ^ 48, by decide⟩⟩⟩]
  perUnit := [("storage", .finite ⟨false, ⟨1022 * 2 ^ 52 + 2 ^ 51, by decide⟩⟩)]

/-- A whole number and the binary64 number of the same value, 256 and 256.0. -/
private def storageAnswers : Answers :=
  [("storage", .number (.integer 256 (by decide))), ("used", .number (.binary ⟨false, ⟨1031 * 2 ^ 52, by decide⟩⟩))]

private theorem isRead_storageModel : storageModel.IsRead where
  isRecordable := by
    refine ⟨⟨_, rfl⟩, ⟨_, rfl⟩, List.forall_mem_singleton.2 ⟨?_, _, rfl⟩, List.forall_mem_singleton.2 ⟨_, rfl⟩, ?_⟩
    · rw [Condition.toJson_ofJson]
      simp [storageCondition, Json.WellFormed, Json.ItemsWellFormed, Json.MembersWellFormed, Members.Sorted]
    · exact List.pairwise_singleton _ _
  conditions := List.forall_mem_singleton.2 ⟨_, rfl⟩

private theorem wellFormed_storageAnswers : storageAnswers.toJson.WellFormed := by
  have hkeys : ["storage", "used"].Pairwise (· < ·) := by decide
  simp only [Answers.toJson, storageAnswers, Json.WellFormed, Json.MembersWellFormed]
  exact ⟨hkeys, trivial, trivial, trivial⟩

/-- A rule whose body holds both. -/
private def storageRule : Rule := ⟨7, "PHONE", Rule.pricingKind, 3, true, storageAnswers.toJson, 1700000000000, 12⟩

/-- A rule, a request with answers and a quote whose numbers all come back are read from their texts, and a reference to a
rule always is. -/
theorem documents_roundTrip_storage :
    storageAnswers.toJson.WellFormed ∧ storageModel.IsRead ∧
      Rule.reader.ofText storageRule.toJson.print = .ok storageRule ∧
      RecomputeRequest.reader.ofText (RecomputeRequest.toJson ⟨storageAnswers, 3, storageModel⟩).print =
        .ok ⟨storageAnswers, 3, storageModel⟩ ∧
      Quote.reader.ofText (Quote.toJson ⟨487, 3, storageModel, some 7⟩).print = .ok ⟨487, 3, storageModel, some 7⟩ ∧
      RuleReference.reader.ofText (RuleReference.toJson (.inEffect ⟨"PHONE", none⟩)).print =
        .ok (.inEffect ⟨"PHONE", none⟩) := by
  have hanswers := wellFormed_storageAnswers
  have hmodel := isRead_storageModel
  have hrule := (documents_roundTrip .rule storageRule hanswers).1
  have hrecompute := (documents_roundTrip .recomputeRequest ⟨storageAnswers, 3, storageModel⟩ ⟨hanswers, hmodel⟩).1
  have hquote := (documents_roundTrip .quote ⟨487, 3, storageModel, some 7⟩ hmodel).1
  have hreference := (documents_roundTrip .ruleReference (.inEffect ⟨"PHONE", none⟩) trivial).2
  exact ⟨hanswers, hmodel, hrule.ofText_eq_iff.2 (by decide +kernel), hrecompute.ofText_eq_iff.2 (by decide +kernel),
    hquote.ofText_eq_iff.2 (by decide +kernel), hreference rfl⟩

/-- A base price of 90071.99254740991 or, with its last bit set, of 90071.99254740993. -/
private def preciseModel (lastBit : Fin 2) : PriceModel where
  basePrice := .finite ⟨false, ⟨1039 * 2 ^ 52 + 1686100569056405 + lastBit, by omega⟩⟩
  minPrice := .finite .zero
  adjustments := []
  perUnit := []

/-- The text of a model with the base price 90071.99254740993 is read as a model with another base price. -/
theorem ofText_print_preciseModel :
    (preciseModel 1).IsRead ∧ PriceModel.reader.ofText (preciseModel 1).toJson.print = .ok (preciseModel 0) ∧
      preciseModel 0 ≠ preciseModel 1 := by
  refine ⟨⟨⟨⟨_, rfl⟩, ⟨_, rfl⟩, by simp [preciseModel], by simp [preciseModel], .nil⟩, by simp [preciseModel]⟩, ?_, ?_⟩
  · decide +kernel
  · decide +kernel

end DocumentType

end TradeIn
