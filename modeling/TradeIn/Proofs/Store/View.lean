import Mathlib.Data.List.Perm.Basic
import TradeIn.Proofs.Rule.Age
import TradeIn.Proofs.Store.Filed
import TradeIn.Store.Faults

/-!
# Either store as a store in memory

A store in tables answers calls like a store in memory that holds what is read from its documents
(`TableStore.Shows`). Only in one respect is there more to a write than in memory: the body of the written rule goes
through text, so that from then on `Backend.kept` of it is read. All that a call can do to either store is said once
(`Backend.Shows.serve`), in terms of what the store shows.
-/

namespace TradeIn

namespace MemoryStore

variable {store : MemoryStore} {rule : Rule}

/-- The store after a write that left a rule under its id. -/
def wrote (store : MemoryStore) (rule : Rule) : MemoryStore :=
  { store with
    rules := (rule.id, rule) :: store.rules.filter fun entry => entry.1 ≠ rule.id
    revision := rule.revision }

/-- What is left in the place of a rule follows the store. -/
theorem follows_wrote (hrevision : rule.revision = store.revision + 1) : store.Follows rule (store.wrote rule) := by
  refine ⟨fun id => ?_, hrevision, rfl, rfl⟩
  rw [rule?, rule?, wrote]
  by_cases hid : id = rule.id
  · simp [hid]
  · rw [if_neg hid, List.lookup_cons, beq_eq_false_iff_ne.2 hid]
    induction store.rules with
    | nil => rfl
    | cons entry entries ih =>
      obtain ⟨key, stored⟩ := entry
      by_cases hkey : key = rule.id
      · simp only [List.filter_cons, hkey, ne_eq, not_true_eq_false, decide_false, List.lookup_cons,
          beq_eq_false_iff_ne.2 hid] at ih ⊢
        exact ih
      · simp only [List.filter_cons, hkey, ne_eq, not_false_eq_true, decide_true, if_true, List.lookup_cons] at ih ⊢
        rw [ih]

/-- All rules are under their ids then. -/
theorem Keyed.wrote (h : store.Keyed) (rule : Rule) : (store.wrote rule).Keyed := by
  constructor
  · refine List.nodup_cons.2 ⟨?_, (List.filter_sublist.map Prod.fst).nodup h.1⟩
    intro hmem
    obtain ⟨entry, hentry, heq⟩ := List.mem_map.1 hmem
    simpa [heq] using (List.mem_filter.1 hentry).2
  · intro entry hentry
    rcases List.mem_cons.1 hentry with rfl | hold
    · rfl
    · exact h.2 entry (List.mem_filter.1 hold).1

/-- What a call leaves of what a store shows, where a written body is kept as `keep` says: it writes a rule as it is
meant to, or does no more than it does in memory. -/
inductive Leaves (keep : Json → Json) (view : MemoryStore) (request : StoreCall) : MemoryStore → Prop
  | written {rule : Rule} {after : MemoryStore} (hwritten : request.written? (view.serve request).1 = some rule)
    (hwrites : view.Writes request rule) (hfollows : view.Follows { rule with body := keep rule.body } after) :
    Leaves keep view request after
  | unwritten (hnone : request.written? (view.serve request).1 = none) : Leaves keep view request (view.serve request).2

/-- A store in memory keeps bodies as they are. -/
theorem Keyed.leaves (h : store.Keyed) (request : StoreCall) : store.Leaves id request (store.serve request).2 := by
  rcases h.serve_cases request with ⟨rule, hwritten, hwrites, hfollows⟩ | ⟨hnone, -, -⟩
  · exact .written hwritten hwrites hfollows
  · exact .unwritten hnone

end MemoryStore

namespace TableStore

/-- The row of a device type that was registered after `entry.2` others. -/
def deviceTypeRow (entry : DeviceType × Nat) : DeviceTypeKey × Json :=
  (⟨.ofNat (entry.2 + 1), entry.1.id⟩, entry.1.toJson)

/-- The rows of device types in the order of their registration. -/
def deviceTypeRows (types : List DeviceType) : Table DeviceTypeKey Json := types.zipIdx.map deviceTypeRow

/-- What is read from the tables is held by a store in memory, which counts the same writes. -/
structure Shows (tables : TableStore) (view : MemoryStore) : Prop where
  keyed : view.Keyed
  sorted : Table.Sorted tables.rules
  rules : ∀ id, (Table.get? tables.rules id).map (decode Rule.reader) = (view.rule? id).map .ok
  deviceTypes : tables.deviceTypes = deviceTypeRows view.deviceTypes
  revision : Table.get? tables.counters revisionCounter = some view.revision
  place : Table.get? tables.counters placeCounter = some (.ofNat view.deviceTypes.length)

variable {tables : TableStore} {view after : MemoryStore} {rule : Rule}

/-- New tables show a new store. -/
theorem shows_empty : empty.Shows .empty where
  keyed := MemoryStore.keyed_empty
  sorted := .nil
  rules _ := rfl
  deviceTypes := rfl
  revision := rfl
  place := rfl

/-- Opening tables again changes nothing. -/
theorem Shows.reopen_eq (h : tables.Shows view) : tables.reopen = tables := by
  have hrevision : withCounter revisionCounter tables.counters = tables.counters := by
    rw [withCounter, h.revision]
  have hplace : withCounter placeCounter tables.counters = tables.counters := by
    rw [withCounter, h.place]
  rw [reopen, hrevision, hplace]

/-- The same rule is found under an id. -/
theorem Shows.rule?_eq (h : tables.Shows view) (id : Int64) : tables.rule? id = .ok (view.rule? id) := by
  have hrule := h.rules id
  rw [rule?]
  cases hfound : view.rule? id with
  | none =>
    rw [hfound, Option.map_none, Option.map_eq_none_iff] at hrule
    rw [hrule]
  | some rule =>
    rw [hfound, Option.map_some, Option.map_eq_some_iff] at hrule
    obtain ⟨document, hdocument, hread⟩ := hrule
    simp only [hdocument, hread, bind, Except.bind, pure, Except.pure]

/-- All rules are read from their documents, in the order of their ids. -/
theorem Shows.exists_mapM_rules (h : tables.Shows view) :
    ∃ rules, (tables.rules.mapM fun row => decode Rule.reader row.2) = .ok rules ∧
      rules.Perm (view.rules.map Prod.snd) := by
  have hrows : (tables.rules.map fun row => (row.1, decode Rule.reader row.2)).Perm
      (view.rules.map fun entry => (entry.1, .ok entry.2)) := by
    refine Table.perm_of_get?_eq ?_ ?_ fun id => ?_
    · rw [List.map_map]
      exact h.sorted.nodup_keys
    · rw [List.map_map]
      exact h.keyed.1
    · rw [Table.get?_map, Table.get?_map, h.rules]
      rfl
  have hresults := hrows.map Prod.snd
  rw [List.map_map, List.map_map] at hresults
  have hread : List.Forall₂ (fun result rule => result = .ok rule)
      (view.rules.map (Prod.snd ∘ fun entry => (entry.1, (.ok entry.2 : Except StoreError Rule))))
      (view.rules.map Prod.snd) := by
    rw [List.forall₂_map_left_iff, List.forall₂_map_right_iff, List.forall₂_same]
    exact fun _ _ => rfl
  obtain ⟨rules, hforall, hperm⟩ := List.perm_comp_forall₂ hresults hread
  rw [List.forall₂_map_left_iff] at hforall
  exact ⟨rules, mapM_eq_ok hforall, hperm⟩

/-- The same rules are listed in the same order. -/
theorem Shows.listRules_eq (h : tables.Shows view) (query : RuleQuery) :
    tables.listRules query = .ok (view.listRules query) := by
  obtain ⟨rules, hread, hperm⟩ := h.exists_mapM_rules
  have hids : ((rules.filter query.accepts).map Rule.id).Nodup :=
    (List.filter_sublist.map Rule.id).nodup ((hperm.map Rule.id).nodup_iff.2 h.keyed.nodup_ids)
  rw [listRules, hread]
  exact congrArg Except.ok (Rule.newestFirst_eq_of_perm hids (hperm.filter query.accepts))

/-- Device types are listed in the order of their rows. -/
theorem deviceTypeList_of_eq_deviceTypeRows {types : List DeviceType} (h : tables.deviceTypes = deviceTypeRows types) :
    tables.deviceTypeList = .ok types := by
  have hread : List.Forall₂ (fun row deviceType => decode DeviceType.reader row.2 = .ok deviceType)
      (deviceTypeRows types) (types.zipIdx.map Prod.fst) := by
    rw [deviceTypeRows, List.forall₂_map_left_iff, List.forall₂_map_right_iff, List.forall₂_same]
    exact fun entry _ => decode_deviceType entry.1
  rw [List.zipIdx_map_fst] at hread
  rw [deviceTypeList, h, mapM_eq_ok hread]

/-- The same device types are listed. -/
theorem Shows.deviceTypeList_eq (h : tables.Shows view) : tables.deviceTypeList = .ok view.deviceTypes :=
  deviceTypeList_of_eq_deviceTypeRows h.deviceTypes

/-- Writing a rule stamps it. -/
theorem Shows.writeRule_fst (h : tables.Shows view) (rule : Rule) :
    (tables.writeRule rule).1 = { rule with revision := view.revision + 1 } := by
  rw [TableStore.writeRule, nextCount, h.revision, Option.getD_some]

/-- A rule that is written is shown with the body that comes back from text. -/
theorem Shows.writeRule (h : tables.Shows view) (hbody : rule.body.nesting < Parsed.maxDepth)
    (hfollows : view.Follows { rule with body := rule.body.restored, revision := view.revision + 1 } after)
    (hkeyed : after.Keyed) : (tables.writeRule rule).2.Shows after := by
  have hcount : tables.nextCount revisionCounter = view.revision + 1 := by
    rw [nextCount, h.revision, Option.getD_some]
  simp only [TableStore.writeRule, hcount]
  refine ⟨hkeyed, Table.sorted_put h.sorted, ?_, ?_, ?_, ?_⟩
  · intro id
    rw [Table.get?_put, hfollows.rule?_eq]
    split
    · rw [Option.map_some, Option.map_some]
      exact congrArg some (decode_document hbody)
    · exact h.rules id
  · rw [hfollows.deviceTypes_eq]
    exact h.deviceTypes
  · rw [Table.get?_put, if_pos rfl, hfollows.revision_eq]
  · rw [Table.get?_put, if_neg (by decide), hfollows.deviceTypes_eq]
    exact h.place

/-- A row of a device type is found by its id. -/
theorem any_deviceTypeRows (types : List DeviceType) (id : String) :
    ((deviceTypeRows types).any fun row => row.1.id == id) = types.any fun deviceType => deviceType.id == id := by
  have htypes : (types.zipIdx.map Prod.fst).any (fun deviceType => deviceType.id == id) =
      types.any fun deviceType => deviceType.id == id := by rw [List.zipIdx_map_fst]
  rw [← htypes, deviceTypeRows, List.any_map, List.any_map]
  rfl

/-- The row of a device type that is registered next goes to the end. -/
theorem put_deviceTypeRows (types : List DeviceType) (deviceType : DeviceType) (hplace : types.length + 1 < 2 ^ 64) :
    Table.put ⟨.ofNat (types.length + 1), deviceType.id⟩ deviceType.toJson (deviceTypeRows types) =
      deviceTypeRows (types ++ [deviceType]) := by
  rw [Table.put_of_forall_after, deviceTypeRows, deviceTypeRows, List.zipIdx_append, List.map_append, Nat.zero_add]
  · rfl
  intro key hkey
  obtain ⟨row, hrow, rfl⟩ := List.mem_map.1 hkey
  obtain ⟨⟨other, place⟩, hentry, rfl⟩ := List.mem_map.1 hrow
  have hbefore : place < types.length := by
    have hbound := (List.mem_zipIdx hentry).2.1
    omega
  -- The place of the next row is after that of each row.
  have hlt : (UInt64.ofNat (place + 1)).toNat < (UInt64.ofNat (types.length + 1)).toNat := by
    rw [UInt64.toNat_ofNat_of_lt' (Nat.lt_trans (by omega) hplace), UInt64.toNat_ofNat_of_lt' hplace]
    omega
  have hne : UInt64.ofNat (types.length + 1) ≠ UInt64.ofNat (place + 1) := fun heq => by
    rw [heq] at hlt
    omega
  constructor
  · rintro (hgreater | ⟨hequal, -⟩)
    · have hgreater := UInt64.lt_iff_toNat_lt.1 hgreater
      exact absurd hgreater (by simp only [deviceTypeRow]; omega)
    · exact hne hequal
  · intro hequal
    exact hne (congrArg DeviceTypeKey.place hequal)

/-- The body of a rule that is shown was read from a document. -/
theorem Shows.nesting_lt (h : tables.Shows view) {id : Int64} (hrule : view.rule? id = some rule) :
    rule.body.nesting < Parsed.maxDepth := by
  have hread := h.rules id
  rw [hrule, Option.map_some, Option.map_eq_some_iff] at hread
  obtain ⟨document, -, hdecode⟩ := hread
  exact nesting_body_lt_of_decode hdecode

/-- A call is answered as by the store that is shown, and leaves tables that show what the call leaves of it, as long as
the places of the device types have numbers, and no document of an inserted rule is nested too deep to be read. -/
def ServesAs (tables : TableStore) (view : MemoryStore) (request : StoreCall) : Prop :=
  (tables.serve request).1 = (view.serve request).1 ∧
    ((view.serve request).2.deviceTypes.length < 2 ^ 64 →
      (∀ body ∈ request.inserted? (view.serve request).1, body.nesting < Parsed.maxDepth) →
      ∃ after, (tables.serve request).2.Shows after ∧ view.Leaves Json.restored request after)

/-- A call that writes no rule and changes nothing. -/
theorem Shows.servesAs_of_unchanged (h : tables.Shows view) {request : StoreCall} {result : request.Result}
    (htables : tables.serve request = (result, tables)) (hview : view.serve request = (result, view))
    (hnone : request.written? result = none) : tables.ServesAs view request := by
  have hleaves : view.Leaves Json.restored request (view.serve request).2 := .unwritten (by rwa [hview])
  rw [hview] at hleaves
  rw [ServesAs, htables, hview]
  exact ⟨rfl, fun _ _ => ⟨view, h, hleaves⟩⟩

/-- A call that writes a rule. -/
theorem Shows.servesAs_of_written (h : tables.Shows view) (rule : Rule) {request : StoreCall}
    {result : request.Result} (hwrites : view.Writes request { rule with revision := view.revision + 1 })
    (htables : tables.serve request = (result, (tables.writeRule rule).2)) (hview : (view.serve request).1 = result)
    (hwritten : request.written? result = some { rule with revision := view.revision + 1 })
    (hbody : (∀ body ∈ request.inserted? result, body.nesting < Parsed.maxDepth) →
      rule.body.nesting < Parsed.maxDepth) : tables.ServesAs view request := by
  have hfollows : view.Follows { rule with body := rule.body.restored, revision := view.revision + 1 } _ :=
    MemoryStore.follows_wrote rfl
  rw [ServesAs, htables, hview]
  refine ⟨rfl, fun _ hinserted => ⟨_, ?_, .written (hview ▸ hwritten) hwrites hfollows⟩⟩
  exact h.writeRule (hbody hinserted) hfollows (h.keyed.wrote _)

/-- A rule is inserted as in memory. -/
theorem Shows.serve_insertRule (h : tables.Shows view) (rule : Rule) : tables.ServesAs view (.insertRule rule) := by
  have hrule := h.rule?_eq rule.id
  cases hfound : view.rule? rule.id with
  | some taken =>
    rw [hfound] at hrule
    exact h.servesAs_of_unchanged (serve_insertRule_of_some hrule) (MemoryStore.serve_insertRule_of_some hfound) rfl
  | none =>
    rw [hfound] at hrule
    have hserved := serve_insertRule_of_none hrule
    rw [h.writeRule_fst] at hserved
    exact h.servesAs_of_written rule (.insert hfound) hserved (by rw [MemoryStore.serve_insertRule_of_none hfound]) rfl
      fun hinserted => hinserted rule.body rfl

/-- A rule is set active as in memory. -/
theorem Shows.serve_setRuleActive (h : tables.Shows view) (id : Int64) (active : Bool) :
    tables.ServesAs view (.setRuleActive id active) := by
  have hrule := h.rule?_eq id
  cases hfound : view.rule? id with
  | none =>
    rw [hfound] at hrule
    exact h.servesAs_of_unchanged (serve_setRuleActive_of_none hrule)
      (MemoryStore.serve_setRuleActive_of_none active hfound) rfl
  | some rule =>
    rw [hfound] at hrule
    have hwrites : view.Writes (.setRuleActive id active) (rule.rewritten active (view.revision + 1)) :=
      .set active hfound
    have hbody := h.nesting_lt hfound
    have hserved := serve_setRuleActive_of_some active hrule
    rw [h.writeRule_fst] at hserved
    exact h.servesAs_of_written { rule with isActive := active } hwrites hserved
      (by rw [MemoryStore.serve_setRuleActive_of_some active hfound]; rfl) rfl fun _ => hbody

/-- A rule is conditionally set active as in memory. -/
theorem Shows.serve_setRuleActiveIf (h : tables.Shows view) (id : Int64) (active : Bool) (revision : UInt64) :
    tables.ServesAs view (.setRuleActiveIf id active revision) := by
  have hrule := h.rule?_eq id
  cases hfound : view.rule? id with
  | none =>
    rw [hfound] at hrule
    exact h.servesAs_of_unchanged (serve_setRuleActiveIf_of_none hrule)
      (MemoryStore.serve_setRuleActiveIf_of_none active revision hfound) rfl
  | some rule =>
    rw [hfound] at hrule
    by_cases hrevision : rule.revision = revision
    · subst hrevision
      have hwrites : view.Writes (.setRuleActiveIf id active rule.revision)
          (rule.rewritten active (view.revision + 1)) := .setIf active hfound
      have hbody := h.nesting_lt hfound
      have hserved := serve_setRuleActiveIf_of_eq active hrule
      rw [h.writeRule_fst] at hserved
      exact h.servesAs_of_written { rule with isActive := active } hwrites hserved
        (by rw [MemoryStore.serve_setRuleActiveIf_of_eq active hfound]; rfl) rfl fun _ => hbody
    · exact h.servesAs_of_unchanged (serve_setRuleActiveIf_of_ne hrule hrevision)
        (MemoryStore.serve_setRuleActiveIf_of_ne active hfound hrevision) rfl

/-- A device type is registered as in memory. -/
theorem Shows.serve_insertDeviceType (h : tables.Shows view) (deviceType : DeviceType) :
    tables.ServesAs view (.insertDeviceType deviceType) := by
  have hany := any_deviceTypeRows view.deviceTypes deviceType.id
  rw [← h.deviceTypes] at hany
  cases htaken : view.deviceTypes.any fun other => other.id == deviceType.id with
  | true =>
    rw [htaken] at hany
    have htables : tables.serve (.insertDeviceType deviceType) =
        (.error (.duplicate (StoreError.deviceTypeName deviceType.id)), tables) := by
      simp only [serve, insertDeviceType, hany, if_true, commit]
    refine h.servesAs_of_unchanged htables ?_ rfl
    simp only [MemoryStore.serve, MemoryStore.insertDeviceType, htaken, if_true]
  | false =>
    rw [htaken] at hany
    have hcount : tables.nextCount placeCounter = .ofNat (view.deviceTypes.length + 1) := by
      rw [nextCount, h.place, Option.getD_some, UInt64.ofNat_add]
      rfl
    have htables : tables.serve (.insertDeviceType deviceType) =
        (.ok deviceType, { tables with
          deviceTypes := Table.put ⟨.ofNat (view.deviceTypes.length + 1), deviceType.id⟩ deviceType.toJson
            (deviceTypeRows view.deviceTypes)
          counters := Table.put placeCounter (.ofNat (view.deviceTypes.length + 1)) tables.counters }) := by
      rw [← h.deviceTypes]
      simp only [serve, insertDeviceType, hany, Bool.false_eq_true, if_false, commit, hcount]
    have hview : view.serve (.insertDeviceType deviceType) =
        (.ok deviceType, { view with deviceTypes := view.deviceTypes ++ [deviceType] }) := by
      simp only [MemoryStore.serve, MemoryStore.insertDeviceType, htaken, Bool.false_eq_true, if_false]
    have hleaves : view.Leaves Json.restored (.insertDeviceType deviceType) _ := .unwritten rfl
    rw [hview] at hleaves
    rw [ServesAs, htables, hview]
    simp only [List.length_append, List.length_singleton]
    refine ⟨trivial, fun hplace _ => ⟨_, ?_, hleaves⟩⟩
    refine ⟨h.keyed, h.sorted, h.rules, put_deviceTypeRows view.deviceTypes deviceType hplace, ?_, ?_⟩
    · rw [Table.get?_put, if_neg (by decide)]
      exact h.revision
    · rw [Table.get?_put, if_pos rfl, List.length_append, List.length_singleton]

/-- Every call is answered as by the store that is shown. -/
theorem Shows.serve (h : tables.Shows view) (request : StoreCall) : tables.ServesAs view request := by
  cases request with
  | insertRule rule => exact h.serve_insertRule rule
  | findRule id => exact h.servesAs_of_unchanged (congrArg (·, tables) (h.rule?_eq id)) rfl rfl
  | listRules query => exact h.servesAs_of_unchanged (congrArg (·, tables) (h.listRules_eq query)) rfl rfl
  | setRuleActive id active => exact h.serve_setRuleActive id active
  | setRuleActiveIf id active revision => exact h.serve_setRuleActiveIf id active revision
  | insertDeviceType deviceType => exact h.serve_insertDeviceType deviceType
  | findDeviceType reference =>
    refine h.servesAs_of_unchanged ?_ rfl rfl
    simp only [TableStore.serve, h.deviceTypeList_eq, Except.map]
  | listDeviceTypes => exact h.servesAs_of_unchanged (congrArg (·, tables) h.deviceTypeList_eq) rfl rfl

end TableStore

end TradeIn
