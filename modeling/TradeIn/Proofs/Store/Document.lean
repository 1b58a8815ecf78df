import TradeIn.Proofs.Json.Excess
import TradeIn.Proofs.Json.Rereading
import TradeIn.Proofs.Rule.Record
import TradeIn.Store.Tables

/-!
# Documents

A rule is read from its document just as it is from the text of the document (`TableStore.decode_document_eq_ok_iff`). It
comes back with the body that comes back from text, unless the document is nested too deep to be read: then reading fails
at a bracket of the text. Where the document comes back as it is, so does the whole rule. A device type always does, for its
document holds nothing but texts.
-/

namespace TradeIn

namespace Rule

variable {rule : Rule}

/-- A rule that its document gives back: its body is well formed and the document comes back from text as it is. -/
structure IsStorable (rule : Rule) : Prop where
  wellFormed : rule.body.WellFormed
  reread : rule.document.reread? = some rule.document

/-- A document comes back from text as it is just if its body does, which is nested one level less. -/
theorem reread?_document_eq_self_iff :
    rule.document.reread? = some rule.document ↔
      rule.body.nesting < Parsed.maxDepth ∧ rule.body.recoded? = some rule.body := by
  obtain ⟨body, hbody⟩ := rule.body.exists_recoded?
  rw [Json.reread?_eq_some_iff, nesting_document, Nat.succ_le_iff, recoded_document_of_body hbody, hbody]
  simp [document]

/-- Whether a rule can be stored does not depend on when it was written, or on whether it is active. -/
theorem IsStorable.with (h : rule.IsStorable) (isActive : Bool) (revision : UInt64) :
    IsStorable { rule with isActive, revision } := by
  have hbody := reread?_document_eq_self_iff.1 h.reread
  exact ⟨h.wellFormed, reread?_document_eq_self_iff.2 hbody⟩

/-- The body of a rule that can be stored leaves room for the document around it. -/
theorem IsStorable.nesting_lt (h : rule.IsStorable) : rule.body.nesting < Parsed.maxDepth :=
  (reread?_document_eq_self_iff.1 h.reread).1

/-- The body of a rule that can be stored is restored as it is. -/
theorem IsStorable.restored_eq (h : rule.IsStorable) : rule.body.restored = rule.body :=
  Json.restored_eq_self h.wellFormed
    (Json.reread?_eq_some_iff.2 ⟨Nat.le_of_lt h.nesting_lt, (reread?_document_eq_self_iff.1 h.reread).2⟩)

end Rule

namespace DeviceType

/-- A device type is read from its document. -/
theorem ofJson?_toJson (deviceType : DeviceType) : reader.ofJson? deviceType.toJson = some deviceType := by
  obtain ⟨id, code, name⟩ := deviceType
  have hread : reader (toJson ⟨id, code, name⟩).parsed = .ok ⟨id, code, name⟩ := by
    cases code with
    | none =>
      exact RecordReader.Reads.read_eq
        ((((RecordReader.reads_required rfl (Reader.string_parsed id)).map DeviceType.mk).seq
          (RecordReader.reads_optional_none rfl)).seq
          (RecordReader.reads_required rfl (Reader.string_parsed name))) (by simp)
    | some code =>
      have hcode : Reader.nullable Reader.string (Json.string code).parsed = .ok (some code) := rfl
      exact RecordReader.Reads.read_eq
        ((((RecordReader.reads_required rfl (Reader.string_parsed id)).map DeviceType.mk).seq
          (RecordReader.reads_optional rfl hcode)).seq
          (RecordReader.reads_required rfl (Reader.string_parsed name))) (by simp)
  rw [Reader.ofJson?, hread]
  rfl

/-- A device type is written without a number. -/
theorem recoded_toJson (deviceType : DeviceType) : deviceType.toJson.recoded? = some deviceType.toJson := by
  obtain ⟨id, code, name⟩ := deviceType
  cases code <;> simp [toJson, Json.recoded?, Json.recodedMembers?]

/-- The document of a device type comes back from text as it is. -/
theorem reread_toJson (deviceType : DeviceType) : deviceType.toJson.reread? = some deviceType.toJson := by
  refine Json.reread?_eq_some_iff.2 ⟨?_, deviceType.recoded_toJson⟩
  obtain ⟨id, code, name⟩ := deviceType
  cases code <;> simp [toJson, Json.nesting, Json.membersNesting, Parsed.maxDepth]

end DeviceType

namespace TableStore

variable {α : Type} {reader : Reader α} {document : Json} {rule read : Rule} {x : α}

/-- What is read from a document is read from the value that comes back from its text. -/
theorem decode_eq_ok_iff :
    decode reader document = .ok x ↔ ∃ back, document.reread? = some back ∧ reader back.parsed = .ok x := by
  rw [decode]
  constructor
  · intro h
    split at h
    · next value hvalue =>
      obtain rfl := Except.ok.inj h
      obtain ⟨back, hback, hread⟩ := Option.bind_eq_some_iff.1 hvalue
      exact ⟨back, hback, Reader.eq_ok_of_ofJson? hread⟩
    · cases h
  · rintro ⟨back, hback, hread⟩
    have hdocument : reader.ofJson? back = some x := by rw [Reader.ofJson?, hread, Except.toOption]
    rw [hback, Option.bind_some, hdocument]

/-- A rule is read from its document just as it is from the text of the document. -/
theorem decode_document_eq_ok_iff :
    decode Rule.reader rule.document = .ok read ↔ Rule.reader.ofText rule.document.print = .ok read := by
  obtain ⟨body, hbody⟩ := rule.body.exists_recoded?
  have hback := Rule.recoded_document_of_body hbody
  rw [decode_eq_ok_iff, Reader.ofText_print Rule.reader hback]
  constructor
  · rintro ⟨back, hreread, hread⟩
    obtain ⟨hdepth, hrecoded⟩ := Json.reread?_eq_some_iff.1 hreread
    obtain rfl := Option.some.inj (hrecoded.symm.trans hback)
    rw [← Json.nesting_of_recoded? hback] at hdepth
    rwa [Json.parsedWithin_eq hdepth]
  · intro hread
    -- Nothing that is nested too deep is passed over, so the whole document comes back.
    have hdepth := Rule.refusesDeep_document _ _ _ hread
    refine ⟨_, Json.reread?_eq_some_iff.2 ⟨?_, hback⟩, ?_⟩
    · rwa [← Json.nesting_of_recoded? hback]
    · rwa [Json.parsedWithin_eq hdepth] at hread

/-- A rule is read from its document with the body that comes back, unless the document is nested too deep. -/
theorem decode_document (h : rule.body.nesting < Parsed.maxDepth) :
    decode Rule.reader rule.document = .ok { rule with body := rule.body.restored } := by
  obtain ⟨body, hbody⟩ := rule.body.exists_recoded?
  have hrestored := Json.bind_reread?_eq_restored (Nat.le_of_lt h)
  rw [Json.reread?_eq_some_iff.2 ⟨Nat.le_of_lt h, hbody⟩, Option.bind_some] at hrestored
  refine decode_eq_ok_iff.2 ⟨_, Json.reread?_eq_some_iff.2 ⟨?_, Rule.recoded_document_of_body hbody⟩, ?_⟩
  · rw [Rule.nesting_document]
    exact h
  · have hread : Rule.reader.ofJson? (Rule.document { rule with body }) = some _ :=
      Rule.ofJson?_document_of_body (Reader.eq_ok_of_ofJson? hrestored)
    exact Reader.eq_ok_of_ofJson? hread

/-- A rule that can be stored is read as it is. -/
theorem decode_rule (h : rule.IsStorable) : decode Rule.reader rule.document = .ok rule := by
  rw [decode_document h.nesting_lt, h.restored_eq]

/-- Only a document that is not nested too deep is read. -/
theorem nesting_le_of_decode (h : decode reader document = .ok x) : document.nesting ≤ Parsed.maxDepth := by
  obtain ⟨back, hback, -⟩ := decode_eq_ok_iff.1 h
  exact (Json.reread?_eq_some_iff.1 hback).1

/-- The body that is read from a document leaves room for the document around it. -/
theorem nesting_body_lt_of_decode (h : decode Rule.reader document = .ok rule) :
    rule.body.nesting < Parsed.maxDepth := by
  obtain ⟨back, hback, hread⟩ := decode_eq_ok_iff.1 h
  obtain ⟨hdepth, hrecoded⟩ := Json.reread?_eq_some_iff.1 hback
  rw [← Json.nesting_of_recoded? hrecoded] at hdepth
  exact Rule.nesting_body_lt_of_reader hread (Json.fits_parsed hdepth)

/-- A document that is nested too deep is not read: it has its fault where a bracket opens an array or object. -/
theorem exists_decode_of_overDeep (reader : Reader α) (h : Parsed.maxDepth < document.nesting) :
    ∃ column, Json.OpensAt 0 document.print column ∧
      decode reader document = .error (.serialization (.tooDeep column)) := by
  have hexcess : document.excess? 0 Parsed.maxDepth ≠ none := by
    rw [ne_eq, Json.excess?_eq_none_iff]
    exact Nat.not_le.2 h
  obtain ⟨column, hcolumn⟩ := Option.ne_none_iff_exists'.1 hexcess
  refine ⟨column, Json.opensAt_of_excess? hcolumn, ?_⟩
  rw [decode, Json.reread?, if_neg (Nat.not_le.2 h), Option.bind_none, faultIn, hcolumn]

/-- A stored device type is read from its document. -/
theorem decode_deviceType (deviceType : DeviceType) : decode DeviceType.reader deviceType.toJson = .ok deviceType := by
  simp only [decode, deviceType.reread_toJson, Option.bind_some, deviceType.ofJson?_toJson]

end TableStore

end TradeIn
