import TradeIn.Proofs.Store.Reachable

/-!
# Stores that can be read

However many calls were made, as long as nothing was inserted that cannot be read again, each document of a store is read
as a record with the id that it is under (`Backend.Intact`). So a call fails for what is stored, and never because it cannot
be read; and a rule that is stored once stays stored. Unlike what a store shows, this needs no bound on the number of
writes.
-/

namespace TradeIn

namespace TableStore

variable {store : TableStore}

/-- Where everything can be read, a rule is found under an id just if a document is there, and has that id. -/
theorem Filed.exists_rule?_eq (h : store.Filed) (hreadable : store.Readable) (id : Int64) :
    ∃ found, store.rule? id = .ok found ∧ (found = none ↔ Table.get? store.rules id = none) ∧
      ∀ rule, found = some rule → rule.id = id := by
  cases hdocument : Table.get? store.rules id with
  | none => exact ⟨none, rule?_eq_none_iff.2 hdocument, by simp, by simp⟩
  | some document =>
    obtain ⟨rule, hid, hread⟩ := h.exists_decode_rules hreadable _ (Table.mem_of_get? hdocument)
    exact ⟨some rule, rule?_eq_some_iff.2 ⟨document, hdocument, hread⟩, by simp, by rintro _ ⟨⟩; exact hid⟩

/-- The device types are listed, with the ids that their documents are under. -/
theorem Filed.exists_deviceTypeList_eq (h : store.Filed) :
    ∃ types, store.deviceTypeList = .ok types ∧
      ∀ id, (store.deviceTypes.any fun row => row.1.id == id) = true ↔ ∃ deviceType ∈ types, deviceType.id = id := by
  have hdocuments : ∀ row ∈ store.deviceTypes, ∃ deviceType : DeviceType,
      deviceType.id = row.1.id ∧ decode DeviceType.reader row.2 = .ok deviceType := by
    intro row hrow
    obtain ⟨deviceType, hid, hdocument⟩ := h.deviceTypes row hrow
    exact ⟨deviceType, hid, hdocument ▸ decode_deviceType deviceType⟩
  obtain ⟨types, hread, hids⟩ := exists_mapM_decode_eq DeviceTypeKey.id hdocuments
  refine ⟨types, hread, fun id => ?_⟩
  have hmem : id ∈ types.map DeviceType.id ↔ id ∈ store.deviceTypes.map fun row => row.1.id := by rw [hids]
  simpa using hmem.symm

end TableStore

namespace Backend

variable {backend : Backend} {request : StoreCall} {rule : Rule} {id : Int64}

/-- The rule that is found under an id. -/
def rule? (backend : Backend) (id : Int64) : Option Rule :=
  match (backend.serve (.findRule id)).1 with
  | .ok found => found
  | .error _ => none

/-- The device types that are listed. -/
def deviceTypes (backend : Backend) : List DeviceType :=
  match (backend.serve .listDeviceTypes).1 with
  | .ok types => types
  | .error _ => []

/-- All records that are stored are under their ids and can be read. -/
structure Intact (backend : Backend) : Prop where
  filed : backend.Filed
  readable : backend.Readable

/-- A call leaves a backend intact if what it inserts can be read again. -/
theorem Intact.serve (h : backend.Intact) (request : StoreCall)
    (hinserted : ∀ body ∈ request.inserted? (backend.serve request).1, backend.Rereads body) :
    (backend.serve request).2.Intact :=
  ⟨h.filed.serve request, (h.filed.readable_serve_iff request).2 ⟨h.readable, hinserted⟩⟩

/-- Looking for a rule succeeds and changes nothing. -/
theorem Intact.serve_findRule (h : backend.Intact) (id : Int64) :
    backend.serve (.findRule id) = (.ok (backend.rule? id), backend) := by
  cases backend with
  | memory store => rfl
  | tables store =>
    obtain ⟨found, hfound, -⟩ := TableStore.Filed.exists_rule?_eq h.filed h.readable id
    simp only [rule?, Backend.serve, TableStore.serve, hfound]

/-- Listing device types succeeds and changes nothing. -/
theorem Filed.serve_listDeviceTypes (h : backend.Filed) :
    backend.serve .listDeviceTypes = (.ok backend.deviceTypes, backend) := by
  cases backend with
  | memory store => rfl
  | tables store =>
    obtain ⟨types, htypes, -⟩ := TableStore.Filed.exists_deviceTypeList_eq h
    simp only [deviceTypes, Backend.serve, TableStore.serve, htypes]

/-- On tables, what is found is what the document says. -/
theorem Intact.rule?_eq_ok {store : TableStore} (h : (tables store).Intact) {found : Option Rule}
    (hfound : (tables store).rule? id = found) : store.rule? id = .ok found := by
  have hserved : store.rule? id = .ok ((tables store).rule? id) := congrArg Prod.fst (h.serve_findRule id)
  rw [hserved, hfound]

/-- A rule has the id that it is found under. -/
theorem Intact.id_eq_of_rule? (h : backend.Intact) (hrule : backend.rule? id = some rule) : rule.id = id := by
  cases backend with
  | memory store => exact MemoryStore.Keyed.id_eq_of_rule? h.filed hrule
  | tables store =>
    obtain ⟨found, hfound, -, hid⟩ := TableStore.Filed.exists_rule?_eq h.filed h.readable id
    rw [Intact.rule?_eq_ok h rfl, Except.ok.injEq] at hfound
    exact hid rule (hfound ▸ hrule)

/-- On tables, a rule is found just if a document is filed under its id. -/
theorem Intact.rule?_eq_none_iff {store : TableStore} (h : (tables store).Intact) (id : Int64) :
    (tables store).rule? id = none ↔ Table.get? store.rules id = none := by
  obtain ⟨found, hfound, hiff, -⟩ := TableStore.Filed.exists_rule?_eq h.filed h.readable id
  rw [Intact.rule?_eq_ok h rfl, Except.ok.injEq] at hfound
  rwa [hfound]

/-- A rule that is found is found after every call that inserts nothing but what can be read again. -/
theorem Intact.rule?_serve_ne_none (h : backend.Intact) (hsome : backend.rule? id ≠ none) (request : StoreCall)
    (hinserted : ∀ body ∈ request.inserted? (backend.serve request).1, backend.Rereads body) :
    (backend.serve request).2.rule? id ≠ none := by
  cases backend with
  | memory store =>
    change (store.serve request).2.rule? id ≠ none
    rcases MemoryStore.Keyed.serve_cases h.filed request with ⟨rule, -, -, hfollows⟩ | ⟨-, hrules, -⟩
    · rw [hfollows.rule?_eq]
      split
      · exact Option.some_ne_none _
      · exact hsome
    · rwa [MemoryStore.rule?, hrules]
  | tables store =>
    rw [ne_eq, Intact.rule?_eq_none_iff h] at hsome
    have hafter := Intact.rule?_eq_none_iff (h.serve request hinserted) id
    exact fun hnone => TableStore.get?_rules_serve_ne_none hsome request (hafter.1 hnone)

/-- A call to memory. -/
theorem serve_memory {store after : MemoryStore} {result : request.Result} (h : store.serve request = (result, after)) :
    (memory store).serve request = (result, memory after) := by
  simp only [Backend.serve, h]

/-- A call to tables. -/
theorem serve_tables {store after : TableStore} {result : request.Result} (h : store.serve request = (result, after)) :
    (tables store).serve request = (result, tables after) := by
  simp only [Backend.serve, h]

/-- An insertion under a taken id is refused. -/
theorem Intact.serve_insertRule_of_some (h : backend.Intact) {found : Rule} (hfound : backend.rule? rule.id = some found) :
    backend.serve (.insertRule rule) = (.error (.duplicate (StoreError.ruleName rule.id)), backend) := by
  cases backend with
  | memory store => exact serve_memory (MemoryStore.serve_insertRule_of_some hfound)
  | tables store => exact serve_tables (TableStore.serve_insertRule_of_some (Intact.rule?_eq_ok h hfound))

/-- An insertion under a free id succeeds. -/
theorem Intact.exists_serve_insertRule (h : backend.Intact) (hfound : backend.rule? rule.id = none) :
    ∃ stored after, backend.serve (.insertRule rule) = (.ok stored, after) := by
  cases backend with
  | memory store => exact ⟨_, _, serve_memory (MemoryStore.serve_insertRule_of_none hfound)⟩
  | tables store => exact ⟨_, _, serve_tables (TableStore.serve_insertRule_of_none (Intact.rule?_eq_ok h hfound))⟩

/-- No rule is set active under an unknown id. -/
theorem Intact.serve_setRuleActive_of_none (h : backend.Intact) (active : Bool) (hfound : backend.rule? id = none) :
    backend.serve (.setRuleActive id active) = (.error (.notFound (StoreError.ruleName id)), backend) := by
  cases backend with
  | memory store => exact serve_memory (MemoryStore.serve_setRuleActive_of_none active hfound)
  | tables store => exact serve_tables (TableStore.serve_setRuleActive_of_none (Intact.rule?_eq_ok h hfound))

/-- No rule is conditionally set active under an unknown id. -/
theorem Intact.serve_setRuleActiveIf_of_none (h : backend.Intact) (active : Bool) (revision : UInt64)
    (hfound : backend.rule? id = none) :
    backend.serve (.setRuleActiveIf id active revision) = (.error (.notFound (StoreError.ruleName id)), backend) := by
  cases backend with
  | memory store => exact serve_memory (MemoryStore.serve_setRuleActiveIf_of_none active revision hfound)
  | tables store => exact serve_tables (TableStore.serve_setRuleActiveIf_of_none (Intact.rule?_eq_ok h hfound))

/-- A rule with another revision than the expected one is left alone. -/
theorem Intact.serve_setRuleActiveIf_of_ne (h : backend.Intact) (active : Bool) {revision : UInt64}
    (hfound : backend.rule? id = some rule) (hrevision : rule.revision ≠ revision) :
    backend.serve (.setRuleActiveIf id active revision) = (.ok none, backend) := by
  cases backend with
  | memory store => exact serve_memory (MemoryStore.serve_setRuleActiveIf_of_ne active hfound hrevision)
  | tables store => exact serve_tables (TableStore.serve_setRuleActiveIf_of_ne (Intact.rule?_eq_ok h hfound) hrevision)

/-- The id of a device type is taken if a listed one has it. -/
theorem Filed.any_deviceTypes_iff {store : TableStore} (h : (tables store).Filed) (id : String) :
    (store.deviceTypes.any fun row => row.1.id == id) = true ↔ ∃ taken ∈ (tables store).deviceTypes, taken.id = id := by
  obtain ⟨types, htypes, htaken⟩ := TableStore.Filed.exists_deviceTypeList_eq h
  have hlisted : store.deviceTypeList = .ok (tables store).deviceTypes := congrArg Prod.fst h.serve_listDeviceTypes
  rw [htypes, Except.ok.injEq] at hlisted
  rw [htaken, hlisted]

/-- A registration under a taken id is refused. -/
theorem Filed.serve_insertDeviceType_of_mem (h : backend.Filed) {deviceType taken : DeviceType}
    (hmem : taken ∈ backend.deviceTypes) (hid : taken.id = deviceType.id) :
    backend.serve (.insertDeviceType deviceType) =
      (.error (.duplicate (StoreError.deviceTypeName deviceType.id)), backend) := by
  cases backend with
  | memory store =>
    have htaken : (store.deviceTypes.any fun other => other.id == deviceType.id) = true :=
      List.any_eq_true.2 ⟨taken, hmem, beq_iff_eq.2 hid⟩
    exact serve_memory (if_pos htaken)
  | tables store =>
    have htaken := (Filed.any_deviceTypes_iff h deviceType.id).2 ⟨taken, hmem, hid⟩
    refine serve_tables ?_
    simp only [TableStore.serve, TableStore.insertDeviceType, htaken, if_true, TableStore.commit]

/-- A registration under a free id succeeds. -/
theorem Filed.exists_serve_insertDeviceType (h : backend.Filed) {deviceType : DeviceType}
    (hfree : ∀ taken ∈ backend.deviceTypes, taken.id ≠ deviceType.id) :
    ∃ after, backend.serve (.insertDeviceType deviceType) = (.ok deviceType, after) := by
  cases backend with
  | memory store =>
    have hnone : ¬ (store.deviceTypes.any fun other => other.id == deviceType.id) = true := by
      rw [List.any_eq_true]
      exact fun ⟨taken, hmem, hid⟩ => hfree taken hmem (beq_iff_eq.1 hid)
    exact ⟨_, serve_memory (if_neg hnone)⟩
  | tables store =>
    have hnone : ¬ (store.deviceTypes.any fun row => row.1.id == deviceType.id) = true := by
      rw [Filed.any_deviceTypes_iff h]
      exact fun ⟨taken, hmem, hid⟩ => hfree taken hmem hid
    exact ⟨_, serve_tables (congrArg store.commit (if_neg hnone))⟩

end Backend

end TradeIn
