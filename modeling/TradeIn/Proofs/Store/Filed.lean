import Mathlib.Data.List.Forall2
import TradeIn.Proofs.Store.Document
import TradeIn.Proofs.Store.Rows
import TradeIn.Proofs.Store.Writes

/-!
# What can be read from tables

Calls keep the documents of records in tables, under the ids of the records (`TableStore.Filed`). All of them can be read
as long as no rule was inserted whose document is nested too deep (`TableStore.Filed.readable_serve_iff`). Such a document
is written like any other, and stays: from then on every call that has to read it fails, among them every listing of rules
(`TableStore.Filed.listRules_isOk_iff`).
-/

namespace TradeIn

/-- The body that a call has inserted, read off its result. -/
def StoreCall.inserted? : (request : StoreCall) → request.Result → Option Json
  | .insertRule rule, .ok _ => some rule.body
  | _, _ => none

/-- What a call inserts is the body of the rule that it is to insert. -/
theorem StoreCall.exists_of_inserted? {request : StoreCall} {result : request.Result} {body : Json}
    (h : request.inserted? result = some body) : ∃ rule, request = .insertRule rule ∧ rule.body = body := by
  cases request with
  | insertRule rule =>
    cases result with
    | ok stored => exact ⟨rule, rfl, Option.some.inj h⟩
    | error error => cases h
  | _ => cases h

/-- A call inserts nothing if it writes no rule. -/
theorem StoreCall.inserted?_eq_none {request : StoreCall} {result : request.Result} (h : request.written? result = none) :
    request.inserted? result = none := by
  cases request with
  | insertRule rule =>
    cases result with
    | ok stored => cases h
    | error error => rfl
  | _ => rfl

namespace TableStore

variable {store : TableStore} {request : StoreCall} {rule found : Rule} {id : Int64} {active : Bool} {revision : UInt64}

/-- No rule is found where there is no document. -/
theorem rule?_eq_none_iff : store.rule? id = .ok none ↔ Table.get? store.rules id = none := by
  rw [rule?]
  cases hdocument : Table.get? store.rules id with
  | none => simp
  | some document => cases hread : decode Rule.reader document <;> simp [bind, Except.bind, pure, Except.pure, hread]

/-- A rule is found that is read from the document there. -/
theorem rule?_eq_some_iff : store.rule? id = .ok (some rule) ↔
    ∃ document, Table.get? store.rules id = some document ∧ decode Rule.reader document = .ok rule := by
  rw [rule?]
  cases hdocument : Table.get? store.rules id with
  | none => simp
  | some document => cases hread : decode Rule.reader document <;> simp [bind, Except.bind, pure, Except.pure, hread]

/-- Where a rule is found, the document can be read. -/
theorem nesting_le_of_rule? {document : Json} (hrule : store.rule? id = .ok (some rule))
    (hdocument : Table.get? store.rules id = some document) : document.nesting ≤ Parsed.maxDepth := by
  obtain ⟨read, hread, hdecode⟩ := rule?_eq_some_iff.1 hrule
  obtain rfl := Option.some.inj (hdocument.symm.trans hread)
  exact nesting_le_of_decode hdecode

section Calls

variable {error : StoreError}

/-- An insertion fails if the document under its id cannot be read. -/
theorem serve_insertRule_of_error (h : store.rule? rule.id = .error error) :
    store.serve (.insertRule rule) = (.error error, store) := by
  simp only [serve, insertRule, h, bind, Except.bind, commit]

/-- An insertion under a taken id is refused. -/
theorem serve_insertRule_of_some (h : store.rule? rule.id = .ok (some found)) :
    store.serve (.insertRule rule) = (.error (.duplicate (StoreError.ruleName rule.id)), store) := by
  simp only [serve, insertRule, h, bind, Except.bind, commit]

/-- An insertion under a free id is written. -/
theorem serve_insertRule_of_none (h : store.rule? rule.id = .ok none) :
    store.serve (.insertRule rule) = (.ok (store.writeRule rule).1, (store.writeRule rule).2) := by
  simp only [serve, insertRule, h, bind, Except.bind, pure, Except.pure, commit]

/-- No rule is set active if its document cannot be read. -/
theorem serve_setRuleActive_of_error (h : store.rule? id = .error error) :
    store.serve (.setRuleActive id active) = (.error error, store) := by
  simp only [serve, setRuleActive, existingRule, h, bind, Except.bind, commit]

/-- No rule is set active under an unknown id. -/
theorem serve_setRuleActive_of_none (h : store.rule? id = .ok none) :
    store.serve (.setRuleActive id active) = (.error (.notFound (StoreError.ruleName id)), store) := by
  simp only [serve, setRuleActive, existingRule, h, bind, Except.bind, commit]

/-- A stored rule is written again with its new activity. -/
theorem serve_setRuleActive_of_some (active : Bool) (h : store.rule? id = .ok (some found)) :
    store.serve (.setRuleActive id active) =
      (.ok (store.writeRule { found with isActive := active }).1,
        (store.writeRule { found with isActive := active }).2) := by
  simp only [serve, setRuleActive, existingRule, h, bind, Except.bind, pure, Except.pure, commit]

/-- No rule is conditionally set active if its document cannot be read. -/
theorem serve_setRuleActiveIf_of_error (h : store.rule? id = .error error) :
    store.serve (.setRuleActiveIf id active revision) = (.error error, store) := by
  simp only [serve, setRuleActiveIf, existingRule, h, bind, Except.bind, commit]

/-- No rule is conditionally set active under an unknown id. -/
theorem serve_setRuleActiveIf_of_none (h : store.rule? id = .ok none) :
    store.serve (.setRuleActiveIf id active revision) = (.error (.notFound (StoreError.ruleName id)), store) := by
  simp only [serve, setRuleActiveIf, existingRule, h, bind, Except.bind, commit]

/-- A rule with another revision than the expected one is left alone. -/
theorem serve_setRuleActiveIf_of_ne (h : store.rule? id = .ok (some found)) (hrevision : found.revision ≠ revision) :
    store.serve (.setRuleActiveIf id active revision) = (.ok none, store) := by
  simp only [serve, setRuleActiveIf, existingRule, h, bind, Except.bind, pure, Except.pure, commit, ne_eq, hrevision,
    not_false_eq_true, if_true]

/-- A rule with the expected revision is written again with its new activity. -/
theorem serve_setRuleActiveIf_of_eq (active : Bool) (h : store.rule? id = .ok (some found)) :
    store.serve (.setRuleActiveIf id active found.revision) =
      (.ok (some (store.writeRule { found with isActive := active }).1),
        (store.writeRule { found with isActive := active }).2) := by
  simp only [serve, setRuleActiveIf, existingRule, h, bind, Except.bind, pure, Except.pure, commit, ne_eq,
    not_true_eq_false, if_false]

/-- What a call writes into tables: a rule under a free id, or one that was read with another activity. -/
inductive Writes (store : TableStore) : StoreCall → Rule → Prop
  | insert {rule : Rule} (hfree : store.rule? rule.id = .ok none) : Writes store (.insertRule rule) rule
  | set {id : Int64} {found : Rule} (active : Bool) (hfound : store.rule? id = .ok (some found)) :
    Writes store (.setRuleActive id active) { found with isActive := active }
  | setIf {id : Int64} {found : Rule} (active : Bool) (hfound : store.rule? id = .ok (some found)) :
    Writes store (.setRuleActiveIf id active found.revision) { found with isActive := active }

/-- A call to tables writes a rule and answers it, registers a device type, or changes nothing. -/
theorem serve_cases (store : TableStore) (request : StoreCall) :
    (∃ rule, store.Writes request rule ∧ request.written? (store.serve request).1 = some (store.writeRule rule).1 ∧
      (store.serve request).2 = (store.writeRule rule).2) ∨
    request.written? (store.serve request).1 = none ∧ ((store.serve request).2 = store ∨
      ∃ (place : UInt64) (deviceType : DeviceType) (counters : Table String UInt64), (store.serve request).2 =
        { store with
          deviceTypes := Table.put ⟨place, deviceType.id⟩ deviceType.toJson store.deviceTypes
          counters }) := by
  cases request with
  | insertRule rule =>
    rcases hrule : store.rule? rule.id with error | _ | taken
    · rw [serve_insertRule_of_error hrule]
      exact .inr ⟨rfl, .inl rfl⟩
    · rw [serve_insertRule_of_none hrule]
      exact .inl ⟨rule, .insert hrule, rfl, rfl⟩
    · rw [serve_insertRule_of_some hrule]
      exact .inr ⟨rfl, .inl rfl⟩
  | setRuleActive id active =>
    rcases hrule : store.rule? id with error | _ | found
    · rw [serve_setRuleActive_of_error hrule]
      exact .inr ⟨rfl, .inl rfl⟩
    · rw [serve_setRuleActive_of_none hrule]
      exact .inr ⟨rfl, .inl rfl⟩
    · rw [serve_setRuleActive_of_some active hrule]
      exact .inl ⟨_, .set active hrule, rfl, rfl⟩
  | setRuleActiveIf id active revision =>
    rcases hrule : store.rule? id with error | _ | found
    · rw [serve_setRuleActiveIf_of_error hrule]
      exact .inr ⟨rfl, .inl rfl⟩
    · rw [serve_setRuleActiveIf_of_none hrule]
      exact .inr ⟨rfl, .inl rfl⟩
    · by_cases hrevision : found.revision = revision
      · subst hrevision
        rw [serve_setRuleActiveIf_of_eq active hrule]
        exact .inl ⟨_, .setIf active hrule, rfl, rfl⟩
      · rw [serve_setRuleActiveIf_of_ne hrule hrevision]
        exact .inr ⟨rfl, .inl rfl⟩
  | insertDeviceType deviceType =>
    refine .inr ⟨by cases (store.serve (.insertDeviceType deviceType)).1 <;> rfl, ?_⟩
    simp only [serve, insertDeviceType]
    split
    · exact .inl rfl
    · exact .inr ⟨_, deviceType, _, rfl⟩
  | findRule | listRules | findDeviceType | listDeviceTypes => exact .inr ⟨rfl, .inl rfl⟩

/-- A call that writes a rule puts the document of the rule under its id, and no other call changes a document. -/
theorem rules_serve (store : TableStore) (request : StoreCall) :
    (store.serve request).2.rules =
      match request.written? (store.serve request).1 with
      | some rule => Table.put rule.id rule.document store.rules
      | none => store.rules := by
  rcases store.serve_cases request with ⟨rule, -, hwritten, hafter⟩ | ⟨hnone, hafter | ⟨_, _, _, hafter⟩⟩
  · rw [hwritten, hafter]
    rfl
  · rw [hnone, hafter]
  · rw [hnone, hafter]

/-- A document that is there under an id is not removed. -/
theorem get?_rules_serve_ne_none (h : Table.get? store.rules id ≠ none) (request : StoreCall) :
    Table.get? (store.serve request).2.rules id ≠ none := by
  rw [rules_serve]
  split
  · rw [Table.get?_put]
    split
    · exact Option.some_ne_none _
    · exact h
  · exact h

end Calls

/-- Documents of records are under the ids of the records, those of rules in the order of the ids. -/
structure Filed (store : TableStore) : Prop where
  sorted : Table.Sorted store.rules
  rules : ∀ row ∈ store.rules, ∃ rule : Rule, rule.id = row.1 ∧ rule.document = row.2
  deviceTypes : ∀ row ∈ store.deviceTypes, ∃ deviceType : DeviceType, deviceType.id = row.1.id ∧ deviceType.toJson = row.2

/-- No document of a rule is nested too deep to be read. -/
def Readable (store : TableStore) : Prop := ∀ row ∈ store.rules, row.2.nesting ≤ Parsed.maxDepth

instance (store : TableStore) : Decidable store.Readable := inferInstanceAs (Decidable (∀ _ ∈ store.rules, _))

/-- New tables hold no document. -/
theorem filed_empty : empty.Filed := ⟨.nil, by simp [empty, reopen], by simp [empty, reopen]⟩

/-- A rule is written to its document, under its id. -/
theorem Filed.writeRule (h : store.Filed) (rule : Rule) : (store.writeRule rule).2.Filed := by
  refine ⟨Table.sorted_put h.sorted, fun row hrow => ?_, h.deviceTypes⟩
  rcases Table.mem_put hrow with rfl | hold
  · exact ⟨(store.writeRule rule).1, rfl, rfl⟩
  · exact h.rules row hold

/-- Calls keep documents of records under the ids of the records. -/
theorem Filed.serve (h : store.Filed) (request : StoreCall) : (store.serve request).2.Filed := by
  rcases store.serve_cases request with
    ⟨rule, -, -, hafter⟩ | ⟨-, hafter | ⟨place, deviceType, counters, hafter⟩⟩
  · rw [hafter]
    exact h.writeRule rule
  · rwa [hafter]
  · rw [hafter]
    refine ⟨h.sorted, h.rules, fun row hrow => ?_⟩
    rcases Table.mem_put hrow with rfl | hold
    · exact ⟨deviceType, rfl, rfl⟩
    · exact h.deviceTypes row hold

/-- What can be read of tables does not depend on the order of their documents. -/
theorem Filed.readable_iff (h : store.Filed) :
    store.Readable ↔ ∀ id document, Table.get? store.rules id = some document → document.nesting ≤ Parsed.maxDepth := by
  constructor
  · exact fun hreadable id document hdocument => hreadable _ (Table.mem_of_get? hdocument)
  · exact fun hall row hrow => hall row.1 row.2 (Table.get?_of_mem h.sorted.nodup_keys hrow)

/-- A rule that is read has the id that its document is under. -/
theorem Filed.id_eq_of_rule? (h : store.Filed) (hrule : store.rule? id = .ok (some rule)) : rule.id = id := by
  obtain ⟨document, hdocument, hread⟩ := rule?_eq_some_iff.1 hrule
  obtain ⟨filed, hid, rfl⟩ := h.rules _ (Table.mem_of_get? hdocument)
  have hdepth := nesting_le_of_decode hread
  rw [Rule.nesting_document] at hdepth
  rw [decode_document hdepth, Except.ok.injEq] at hread
  rw [← hread]
  exact hid

/-- After a rule was written everything can be read just if its document can, and all documents under other ids. -/
theorem Filed.readable_writeRule_iff (h : store.Filed) (rule : Rule) :
    (store.writeRule rule).2.Readable ↔ rule.body.nesting < Parsed.maxDepth ∧
      ∀ id document, id ≠ rule.id → Table.get? store.rules id = some document → document.nesting ≤ Parsed.maxDepth := by
  have hget : ∀ id, Table.get? (store.writeRule rule).2.rules id =
      if id = rule.id then some (store.writeRule rule).1.document else Table.get? store.rules id :=
    Table.get?_put _ _ _
  rw [(h.writeRule rule).readable_iff]
  constructor
  · intro hall
    refine ⟨?_, fun id document hne hdocument => hall id document ?_⟩
    · have hle := hall rule.id _ ((hget rule.id).trans (if_pos rfl))
      rwa [Rule.nesting_document] at hle
    · rw [hget, if_neg hne, hdocument]
  · rintro ⟨hbody, hothers⟩ id document hdocument
    rw [hget] at hdocument
    split at hdocument
    · rw [← Option.some.inj hdocument, Rule.nesting_document]
      exact hbody
    · next hne => exact hothers id document hne hdocument

/-- Writing a rule again that was read changes nothing about what can be read. -/
theorem Filed.readable_rewrite_iff (h : store.Filed) (hfound : store.rule? id = .ok (some found)) (active : Bool) :
    (store.writeRule { found with isActive := active }).2.Readable ↔ store.Readable := by
  obtain rfl := h.id_eq_of_rule? hfound
  obtain ⟨document, hdocument, hread⟩ := rule?_eq_some_iff.1 hfound
  rw [h.readable_writeRule_iff, h.readable_iff]
  constructor
  · rintro ⟨-, hothers⟩ id other hother
    by_cases hid : id = found.id
    · subst hid
      exact nesting_le_of_rule? hfound hother
    · exact hothers id other hid hother
  · intro hall
    have hbody := nesting_body_lt_of_decode hread
    exact ⟨hbody, fun id other _ hother => hall id other hother⟩

/-- After a call everything can be read just if it could be before, unless the call inserts a rule whose document is
nested too deep. -/
theorem Filed.readable_serve_iff (h : store.Filed) (request : StoreCall) :
    (store.serve request).2.Readable ↔ store.Readable ∧
      ∀ body ∈ request.inserted? (store.serve request).1, body.nesting < Parsed.maxDepth := by
  rcases store.serve_cases request with ⟨rule, hwrites, -, hafter⟩ | ⟨hnone, hafter⟩
  · rw [hafter]
    cases hwrites with
    | insert hfree =>
      have hinserted : StoreCall.inserted? (.insertRule rule) (store.serve (.insertRule rule)).1 = some rule.body := by
        rw [serve_insertRule_of_none hfree]
        rfl
      rw [hinserted, h.readable_writeRule_iff, h.readable_iff]
      simp only [Option.mem_some_iff, forall_eq']
      rw [and_comm]
      refine and_congr_left' (forall₂_congr fun id document => ?_)
      -- There is no document under the id of the new rule.
      refine ⟨fun hother hdocument => hother ?_ hdocument, fun hall _ => hall⟩
      rintro rfl
      rw [rule?_eq_none_iff.1 hfree] at hdocument
      cases hdocument
    | set active hfound => simp [StoreCall.inserted?, h.readable_rewrite_iff hfound active]
    | setIf active hfound => simp [StoreCall.inserted?, h.readable_rewrite_iff hfound active]
  · rw [StoreCall.inserted?_eq_none hnone]
    rcases hafter with hafter | ⟨place, deviceType, counters, hafter⟩ <;> simp [hafter, Readable]

/-- Where each document can be read, all are read together, and the ids of the records are those they are under. -/
theorem exists_mapM_decode_eq {κ ι α : Type} {reader : Reader α} {rows : Table κ Json} {idOf : α → ι} (key : κ → ι)
    (h : ∀ row ∈ rows, ∃ record, idOf record = key row.1 ∧ decode reader row.2 = .ok record) :
    ∃ records, (rows.mapM fun row => decode reader row.2) = .ok records ∧
      records.map idOf = rows.map fun row => key row.1 := by
  induction rows with
  | nil => exact ⟨[], rfl, rfl⟩
  | cons row rows ih =>
    obtain ⟨⟨record, hid, hread⟩, hrest⟩ := List.forall_mem_cons.1 h
    obtain ⟨records, hrecords, hids⟩ := ih hrest
    refine ⟨record :: records, ?_, by rw [List.map_cons, List.map_cons, hid, hids]⟩
    simp only [List.mapM_cons, hread, hrecords, bind, Except.bind, pure, Except.pure]

/-- Documents that are each read one by one are read together. -/
theorem mapM_eq_ok {α β : Type} {read : α → Except StoreError β} {xs : List α} {ys : List β}
    (h : List.Forall₂ (fun x y => read x = .ok y) xs ys) : xs.mapM read = .ok ys := by
  induction h with
  | nil => rfl
  | cons hfirst _ ih => simp only [List.mapM_cons, hfirst, ih, bind, Except.bind, pure, Except.pure]

/-- Documents that are read together are each read. -/
theorem forall₂_of_mapM_eq_ok {α β : Type} {read : α → Except StoreError β} {xs : List α} {ys : List β}
    (h : xs.mapM read = .ok ys) : List.Forall₂ (fun x y => read x = .ok y) xs ys := by
  induction xs generalizing ys with
  | nil =>
    obtain rfl : [] = ys := Except.ok.inj h
    exact .nil
  | cons x xs ih =>
    rw [List.mapM_cons] at h
    obtain ⟨y, hfirst, hothers⟩ := exists_of_bind_eq_ok h
    obtain ⟨rest, hrest, hys⟩ := exists_of_bind_eq_ok hothers
    obtain rfl : y :: rest = ys := Except.ok.inj hys
    exact .cons hfirst (ih hrest)

/-- Where documents are not read together, one of them cannot be read. -/
theorem exists_decode_eq_error_of_mapM {κ α : Type} {reader : Reader α} {rows : Table κ Json} {error : StoreError}
    (h : (rows.mapM fun row => decode reader row.2) = .error error) :
    ∃ row ∈ rows, decode reader row.2 = .error error := by
  induction rows with
  | nil => cases h
  | cons row rows ih =>
    cases hread : decode reader row.2 with
    | error fault =>
      simp only [List.mapM_cons, hread, bind, Except.bind, Except.error.injEq] at h
      exact ⟨row, List.mem_cons_self, hread.trans (congrArg _ h)⟩
    | ok record =>
      cases hrest : rows.mapM fun row => decode reader row.2 with
      | ok records => simp [List.mapM_cons, hread, hrest, bind, Except.bind, pure, Except.pure] at h
      | error fault =>
        simp only [List.mapM_cons, hread, hrest, bind, Except.bind, Except.error.injEq] at h
        obtain ⟨row, hrow, hdecode⟩ := ih (hrest.trans (congrArg _ h))
        exact ⟨row, List.mem_cons_of_mem _ hrow, hdecode⟩

/-- Where everything can be read, each document of a rule is read as a rule with the id that it is under. -/
theorem Filed.exists_decode_rules (h : store.Filed) (hreadable : store.Readable) :
    ∀ row ∈ store.rules, ∃ rule : Rule, rule.id = row.1 ∧ decode Rule.reader row.2 = .ok rule := by
  intro row hrow
  obtain ⟨rule, hid, hdocument⟩ := h.rules row hrow
  have hdepth := hreadable row hrow
  rw [← hdocument, Rule.nesting_document] at hdepth
  rw [← hdocument]
  exact ⟨{ rule with body := rule.body.restored }, hid, decode_document hdepth⟩

/-- A document of a rule that is not read is nested too deep. It has its fault at a bracket. -/
theorem Filed.exists_fault_of_decode (h : store.Filed) {row : Int64 × Json} (hrow : row ∈ store.rules)
    {error : StoreError} (hread : decode Rule.reader row.2 = .error error) :
    Parsed.maxDepth < row.2.nesting ∧ ∃ column, Json.OpensAt 0 row.2.print column ∧
      error = .serialization (.tooDeep column) := by
  have hdeep : Parsed.maxDepth < row.2.nesting := by
    by_contra hdepth
    obtain ⟨rule, -, hdocument⟩ := h.rules row hrow
    rw [Nat.not_lt, ← hdocument, Rule.nesting_document] at hdepth
    rw [← hdocument, decode_document hdepth] at hread
    cases hread
  obtain ⟨column, hcolumn, hfault⟩ := exists_decode_of_overDeep Rule.reader hdeep
  exact ⟨hdeep, column, hcolumn, Except.error.inj (hread.symm.trans hfault)⟩

/-- Rules are listed just if everything can be read, whatever is asked for. -/
theorem Filed.listRules_isOk_iff (h : store.Filed) (query : RuleQuery) :
    (∃ listed, store.listRules query = .ok listed) ↔ store.Readable := by
  constructor
  · rintro ⟨listed, hlisted⟩
    obtain ⟨rules, hrules, -⟩ := exists_of_bind_eq_ok hlisted
    have hread := (forall₂_of_mapM_eq_ok hrules).imp fun row rule hread =>
      And.intro (nesting_le_of_decode hread) hread
    exact ((List.forall₂_and_left _ _).1 hread).1
  · intro hreadable
    obtain ⟨rules, hread, -⟩ := exists_mapM_decode_eq id (h.exists_decode_rules hreadable)
    exact ⟨_, by rw [listRules, hread]; rfl⟩

/-- Otherwise the listing fails at a bracket of a document that is nested too deep. -/
theorem Filed.exists_listRules_eq_error (h : store.Filed) (hnot : ¬store.Readable) (query : RuleQuery) :
    ∃ row ∈ store.rules, Parsed.maxDepth < row.2.nesting ∧ ∃ column, Json.OpensAt 0 row.2.print column ∧
      store.listRules query = .error (.serialization (.tooDeep column)) := by
  cases hrules : store.rules.mapM fun row => decode Rule.reader row.2 with
  | ok rules => exact absurd ((h.listRules_isOk_iff query).1 ⟨_, by rw [listRules, hrules]; rfl⟩) hnot
  | error error =>
    obtain ⟨row, hrow, hread⟩ := exists_decode_eq_error_of_mapM hrules
    obtain ⟨hdeep, column, hcolumn, rfl⟩ := h.exists_fault_of_decode hrow hread
    exact ⟨row, hrow, hdeep, column, hcolumn, by rw [listRules, hrules]; rfl⟩

/-- A document that is nested too deep stays where it is, whatever is called. -/
theorem Filed.get?_rules_serve_of_overDeep (h : store.Filed) {document : Json}
    (hdocument : Table.get? store.rules id = some document) (hdeep : Parsed.maxDepth < document.nesting)
    (request : StoreCall) : Table.get? (store.serve request).2.rules id = some document := by
  rcases store.serve_cases request with
    ⟨rule, hwrites, -, hafter⟩ | ⟨-, hafter | ⟨place, deviceType, counters, hafter⟩⟩
  · -- The rule that is written was read, or there was nothing under its id.
    have hne : id ≠ rule.id := by
      rintro rfl
      cases hwrites with
      | insert hfree =>
        rw [rule?_eq_none_iff, hdocument] at hfree
        cases hfree
      | set active hfound | setIf active hfound =>
        obtain rfl := h.id_eq_of_rule? hfound
        exact absurd (nesting_le_of_rule? hfound hdocument) (Nat.not_le.2 hdeep)
    rw [hafter, TableStore.writeRule, Table.get?_put, if_neg hne, hdocument]
  · rw [hafter, hdocument]
  · rw [hafter, hdocument]

/-- A document that is nested too deep makes each call fail that has to read it, at a bracket of its text. -/
theorem exists_serve_of_overDeep {document : Json} (hdocument : Table.get? store.rules id = some document)
    (hdeep : Parsed.maxDepth < document.nesting) :
    ∃ column, Json.OpensAt 0 document.print column ∧
      store.serve (.findRule id) = (.error (.serialization (.tooDeep column)), store) ∧
      (∀ rule, rule.id = id → store.serve (.insertRule rule) = (.error (.serialization (.tooDeep column)), store)) ∧
      (∀ active, store.serve (.setRuleActive id active) = (.error (.serialization (.tooDeep column)), store)) ∧
      ∀ active revision,
        store.serve (.setRuleActiveIf id active revision) = (.error (.serialization (.tooDeep column)), store) := by
  obtain ⟨column, hcolumn, hread⟩ := exists_decode_of_overDeep Rule.reader hdeep
  have hrule : store.rule? id = .error (.serialization (.tooDeep column)) := by
    rw [rule?, hdocument]
    simp only [hread, bind, Except.bind]
  refine ⟨column, hcolumn, congrArg (·, store) hrule, ?_, ?_, ?_⟩
  · rintro rule rfl
    exact serve_insertRule_of_error hrule
  · exact fun active => serve_setRuleActive_of_error hrule
  · exact fun active revision => serve_setRuleActiveIf_of_error hrule

end TableStore

end TradeIn
