import TradeIn.Proofs.Json.Codec
import TradeIn.Proofs.Json.Nesting
import TradeIn.Rule.Basic

/-!
# Rules as records

A rule is read from an object that has its fields, in whatever order they are (`Rule.HasFields`): from what it is written
to as well as from its document. A body that is read stands in what the rule is read from, so it is well formed, and from
a text it is nested less than a text may be (`RuleDraft.nesting_body_lt_of_ofText`).
-/

namespace TradeIn

namespace Rule

/-- Members are the fields of a rule, in any order. -/
structure HasFields (rule : Rule) (members : List (String × Json)) : Prop where
  nodup_keys : (members.map Prod.fst).Nodup
  id : Members.get? members "id" = some (.ofInt64 rule.id)
  typeAlias : Members.get? members "typeAlias" = some (.string rule.typeAlias)
  kind : Members.get? members "kind" = some (.string rule.kind)
  version : Members.get? members "version" = some (.ofInt64 rule.version)
  isActive : Members.get? members "isActive" = some (.bool rule.isActive)
  body : Members.get? members "body" = some rule.body
  createdAt : Members.get? members "createdAt" = some (.ofInt64 rule.createdAt)
  revision : Members.get? members "revision" = some (.ofUInt64 rule.revision)

variable {rule : Rule} {body : Json} {members : List (String × Json)} {parsed : Parsed} {room : ℕ}

/-- A rule is read from its fields, with the body that is read. -/
theorem HasFields.ofJson?_eq (h : rule.HasFields members) (hbody : Reader.json rule.body.parsed = .ok body) :
    reader.ofJson? (.object members) = some { rule with body } := by
  have hread : reader (Json.object members).parsed = .ok { rule with body } :=
    RecordReader.Reads.read_eq
      (((((((((RecordReader.reads_required h.id (Reader.int64_parsed rule.id)).map Rule.mk).seq
        (RecordReader.reads_required h.typeAlias rfl)).seq
        (RecordReader.reads_required h.kind rfl)).seq
        (RecordReader.reads_required h.version (Reader.int64_parsed rule.version))).seq
        (RecordReader.reads_required h.isActive rfl)).seq
        (RecordReader.reads_required h.body hbody)).seq
        (RecordReader.reads_required h.createdAt (Reader.int64_parsed rule.createdAt))).seq
        (RecordReader.reads_defaulted h.revision (Reader.uint64_parsed rule.revision))) h.nodup_keys
  rw [Reader.ofJson?, hread]
  rfl

/-- A rule is read from what it is written to, with the body that is read. -/
theorem ofJson?_toJson_of_body (hbody : Reader.json rule.body.parsed = .ok body) :
    reader.ofJson? rule.toJson = some { rule with body } :=
  HasFields.ofJson?_eq ⟨by simp, rfl, rfl, rfl, rfl, rfl, rfl, rfl, rfl⟩ hbody

/-- So is it from its document. -/
theorem ofJson?_document_of_body (hbody : Reader.json rule.body.parsed = .ok body) :
    reader.ofJson? rule.document = some { rule with body } :=
  HasFields.ofJson?_eq ⟨by simp, rfl, rfl, rfl, rfl, rfl, rfl, rfl, rfl⟩ hbody

/-- What a rule is written to has the numbers of the body that come back. -/
theorem recoded_toJson_of_body (hbody : rule.body.recoded? = some body) :
    rule.toJson.recoded? = some (toJson { rule with body }) := by
  simp [toJson, Json.recoded?, Json.recodedMembers?, hbody]

/-- So has its document. -/
theorem recoded_document_of_body (hbody : rule.body.recoded? = some body) :
    rule.document.recoded? = some (document { rule with body }) := by
  simp [document, Json.recoded?, Json.recodedMembers?, hbody]

/-- The document of a rule is one level deeper than its body. -/
theorem nesting_document (rule : Rule) : rule.document.nesting = rule.body.nesting + 1 := by
  simp [document, Json.nesting, Json.membersNesting, Json.ofInt64, Json.ofUInt64]

/-- Where only the body has anything nested in it, nothing that is nested too deep is passed over. -/
theorem refusesDeep_object (rule : Rule)
    (h : ∀ member ∈ members, member = ("body", rule.body) ∨ member.2.nesting = 0) :
    reader.RefusesDeep (.object members) := by
  refine RecordReader.read_refusesDeep fun member hmember => ?_
  rcases h member hmember with rfl | hflat
  · exact RecordReader.guards_of_refusesDeep rfl (Reader.json_refusesDeep rule.body)
  · exact .inl hflat

/-- Nothing of what a rule is written to is passed over if it is nested too deep. -/
theorem refusesDeep_toJson (rule : Rule) : reader.RefusesDeep rule.toJson :=
  rule.refusesDeep_object (by simp [Json.nesting, Json.ofInt64, Json.ofUInt64])

/-- Nor is anything of its document. -/
theorem refusesDeep_document (rule : Rule) : reader.RefusesDeep rule.document :=
  rule.refusesDeep_object (by simp [Json.nesting, Json.ofInt64, Json.ofUInt64])

/-- The body of a rule that is read stands in what it is read from. -/
theorem exists_body_of_reader (h : reader parsed = .ok rule) :
    ∃ part ∈ parsed.parts, Reader.json part = .ok rule.body := by
  obtain ⟨find, hparts, hrule⟩ := RecordReader.exists_build_of_read h
  obtain ⟨_, _, hrevision, -, rfl⟩ := RecordReader.build_seq_eq_ok hrule
  obtain ⟨_, _, hcreatedAt, -, rfl⟩ := RecordReader.build_seq_eq_ok hrevision
  obtain ⟨_, body, hactive, hbody, rfl⟩ := RecordReader.build_seq_eq_ok hcreatedAt
  obtain ⟨_, _, hversion, -, rfl⟩ := RecordReader.build_seq_eq_ok hactive
  obtain ⟨_, _, hkind, -, rfl⟩ := RecordReader.build_seq_eq_ok hversion
  obtain ⟨_, _, halias, -, rfl⟩ := RecordReader.build_seq_eq_ok hkind
  obtain ⟨_, _, hid, -, rfl⟩ := RecordReader.build_seq_eq_ok halias
  obtain ⟨_, -, rfl⟩ := RecordReader.build_map_eq_ok hid
  obtain ⟨part, hpart, hread⟩ := RecordReader.exists_of_build_required hbody
  exact ⟨part, hparts _ part hpart, hread⟩

/-- It is well formed. -/
theorem wellFormed_body_of_reader (h : reader parsed = .ok rule) : rule.body.WellFormed := by
  obtain ⟨part, -, hread⟩ := exists_body_of_reader h
  exact Parsed.wellFormed_of_toJson hread

/-- It is nested less than what it is read from may be. -/
theorem nesting_body_lt_of_reader (h : reader parsed = .ok rule) (hfits : parsed.Fits room) :
    rule.body.nesting < room := by
  obtain ⟨part, hpart, hread⟩ := exists_body_of_reader h
  exact hfits.nesting_lt_of_mem_parts hpart hread

end Rule

namespace RuleDraft

variable {draft : RuleDraft} {parsed : Parsed} {text : String}

/-- The body of a draft that is read stands in what it is read from. -/
theorem exists_body_of_reader (h : reader parsed = .ok draft) :
    ∃ part ∈ parsed.parts, Reader.json part = .ok draft.body := by
  obtain ⟨find, hparts, hdraft⟩ := RecordReader.exists_build_of_read h
  obtain ⟨_, body, hactive, hbody, rfl⟩ := RecordReader.build_seq_eq_ok hdraft
  obtain ⟨_, _, hversion, -, rfl⟩ := RecordReader.build_seq_eq_ok hactive
  obtain ⟨_, _, hkind, -, rfl⟩ := RecordReader.build_seq_eq_ok hversion
  obtain ⟨_, _, halias, -, rfl⟩ := RecordReader.build_seq_eq_ok hkind
  obtain ⟨_, -, rfl⟩ := RecordReader.build_map_eq_ok halias
  obtain ⟨part, hpart, hread⟩ := RecordReader.exists_of_build_required hbody
  exact ⟨part, hparts _ part hpart, hread⟩

/-- A draft that is read from a text has a body that is nested less than a text may be. -/
theorem nesting_body_lt_of_ofText (h : reader.ofText text = .ok draft) : draft.body.nesting < Parsed.maxDepth := by
  obtain ⟨parsed, hfits, hread⟩ := Reader.exists_fits_of_ofText h
  obtain ⟨part, hpart, hbody⟩ := exists_body_of_reader hread
  exact hfits.nesting_lt_of_mem_parts hpart hbody

end RuleDraft

end TradeIn
