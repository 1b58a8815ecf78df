import TradeIn.Proofs.Catalog.Refusals
import TradeIn.Proofs.Catalog.Registry
import TradeIn.Proofs.Price.NumericAnswer

/-!
# Registrations

The id of a registered type stands for this type from its registration on (`Registration.id_standsFor_type`): ids are
looked up before codes and names, no two types get the same id, and none gets a blank one. So it makes no difference
which codes and names are registered, before or after. All types are listed in the order of their registration.
-/

namespace TradeIn

namespace Text

/-- A whole number is written with at least one character, and none is blank. -/
theorem isAllBlank_toString (n : ℤ) : isAllBlank (toString n) = false := by
  have hdigits : (toString n.natAbs).toList ≠ [] := by
    rw [Nat.toString_eq_repr, Nat.repr, String.toList_ofList]
    exact Nat.toDigits_ne_nil
  obtain ⟨c, hc⟩ := List.exists_mem_of_ne_nil _ hdigits
  have hmem : c ∈ (toString n).toList := by
    rw [toList_toString]
    exact List.mem_append_right _ hc
  exact List.all_eq_false.2 ⟨c, hmem, by simp [isBlank_of_mem_toString hmem]⟩

end Text

namespace DeviceTypeDraft

variable {draft : DeviceTypeDraft} {new : NewDeviceType}

/-- What is left of a text is not blank. -/
theorem isAllBlank_of_nonBlank? {text kept : String} (h : nonBlank? text = some kept) : Text.isAllBlank kept = false := by
  rw [nonBlank?] at h
  split at h
  · cases h
  · next hblank =>
    rw [← Option.some.inj h]
    exact Text.isAllBlank_trim (by simpa using hblank)

/-- An accepted type gets an id that is not blank, whether it was given or generated. -/
theorem isAllBlank_id_of_accept (haccept : draft.accept = .ok new) (generated : Int64) :
    Text.isAllBlank (new.withId generated).id = false := by
  have hid : new.id = draft.id.bind nonBlank? := by
    rw [accept] at haccept
    split at haccept
    · cases haccept
    · rw [← Except.ok.inj haccept]
  rw [NewDeviceType.withId, hid]
  cases hgiven : draft.id.bind nonBlank? with
  | none => exact Text.isAllBlank_toString generated.toInt
  | some kept =>
    obtain ⟨text, -, hkept⟩ := Option.bind_eq_some_iff.1 hgiven
    exact isAllBlank_of_nonBlank? hkept

end DeviceTypeDraft

/-- Putting a value under a new key adds its row, wherever it goes. -/
theorem Table.put_perm_of_not_mem {κ ν : Type} [LT κ] [DecidableLT κ] [DecidableEq κ] {key : κ} {value : ν}
    {table : Table κ ν} (h : key ∉ table.map Prod.fst) : (Table.put key value table).Perm (table ++ [(key, value)]) := by
  induction table with
  | nil => exact .refl _
  | cons row rest ih =>
    rw [List.map_cons, List.mem_cons, not_or] at h
    simp only [Table.put, if_neg h.1]
    split
    · exact (List.perm_append_singleton _ _).symm
    · exact (ih h.2).cons _

namespace TableStore

variable {store after : TableStore} {deviceType : DeviceType}

/-- A registration that succeeds has found no row with the id, and adds one with the next place. -/
theorem of_serve_insertDeviceType (h : store.serve (.insertDeviceType deviceType) = (.ok deviceType, after)) :
    (∀ row ∈ store.deviceTypes, row.1.id ≠ deviceType.id) ∧
      after = { store with
        deviceTypes := Table.put ⟨store.nextCount placeCounter, deviceType.id⟩ deviceType.toJson store.deviceTypes
        counters := Table.put placeCounter (store.nextCount placeCounter) store.counters } := by
  simp only [serve, insertDeviceType] at h
  split at h
  · cases h
  · next hfree => exact ⟨by simpa using hfree, (congrArg Prod.snd h).symm⟩

/-- What is registered under a free id is listed besides what was listed before. -/
theorem exists_deviceTypeList_of_insert {types : List DeviceType} (hlisted : store.deviceTypeList = .ok types)
    (h : store.serve (.insertDeviceType deviceType) = (.ok deviceType, after)) :
    ∃ listed, after.deviceTypeList = .ok listed ∧ listed.Perm (types ++ [deviceType]) := by
  obtain ⟨hfree, rfl⟩ := of_serve_insertDeviceType h
  have hkey : (⟨store.nextCount placeCounter, deviceType.id⟩ : DeviceTypeKey) ∉ store.deviceTypes.map Prod.fst := by
    intro hmem
    obtain ⟨row, hrow, heq⟩ := List.mem_map.1 hmem
    exact hfree row hrow (congrArg DeviceTypeKey.id heq)
  have hread : List.Forall₂ (fun row type => decode DeviceType.reader row.2 = .ok type)
      (store.deviceTypes ++ [(⟨store.nextCount placeCounter, deviceType.id⟩, deviceType.toJson)])
      (types ++ [deviceType]) :=
    List.rel_append (forall₂_of_mapM_eq_ok hlisted) (.cons (decode_deviceType deviceType) .nil)
  -- The new row may go anywhere, and its type goes with it.
  obtain ⟨listed, hforall, hperm⟩ := List.perm_comp_forall₂ (Table.put_perm_of_not_mem hkey) hread
  exact ⟨listed, mapM_eq_ok hforall, hperm⟩

end TableStore

namespace Backend

variable {backend after : Backend} {types : List DeviceType} {deviceType : DeviceType} {reference : String}

/-- Looking for a device type succeeds and changes nothing. -/
theorem Filed.serve_findDeviceType (h : backend.Filed) (reference : String) :
    backend.serve (.findDeviceType reference) = (.ok (DeviceType.find? backend.deviceTypes reference), backend) := by
  cases backend with
  | memory store => rfl
  | tables store =>
    have hlisted : store.deviceTypeList = .ok (tables store).deviceTypes := congrArg Prod.fst h.serve_listDeviceTypes
    exact serve_tables (by simp only [TableStore.serve, hlisted, Except.map])

/-- The device types are kept in the order of their registration. Tables number them, for as long as there are
numbers. -/
def KeepsOrder (types : List DeviceType) : Backend → Prop
  | memory store => store.deviceTypes = types
  | tables store =>
    Table.get? store.counters TableStore.placeCounter = some (.ofNat types.length) ∧
      (types.length < 2 ^ 64 → store.deviceTypes = TableStore.deviceTypeRows types)

/-- Just these device types were registered, one after the other. -/
structure HasRegistered (types : List DeviceType) (backend : Backend) : Prop where
  filed : backend.Filed
  keepsOrder : backend.KeepsOrder types
  perm : backend.deviceTypes.Perm types
  distinctIds : DeviceType.DistinctIds types
  id_notBlank : ∀ deviceType ∈ types, Text.isAllBlank deviceType.id = false

/-- A new backend has registered nothing. -/
theorem hasRegistered_new (hnew : backend = .memory .empty ∨ backend = .tables .empty) :
    backend.HasRegistered [] := by
  rcases hnew with rfl | rfl
  · exact ⟨Reachable.newMemory.filed, rfl, .refl _, List.nodup_nil, by simp⟩
  · exact ⟨Reachable.newTables.filed, ⟨rfl, fun _ => rfl⟩, .refl _, List.nodup_nil, by simp⟩

/-- A registration that succeeds appends the type in memory, or has written its row to tables. -/
theorem insertDeviceType_cases (h : backend.serve (.insertDeviceType deviceType) = (.ok deviceType, after)) :
    (∃ store : MemoryStore, backend = memory store ∧
      after = memory { store with deviceTypes := store.deviceTypes ++ [deviceType] }) ∨
    ∃ store made : TableStore, backend = tables store ∧ after = tables made ∧
      store.serve (.insertDeviceType deviceType) = (.ok deviceType, made) := by
  cases backend with
  | memory store =>
    simp only [Backend.serve, MemoryStore.serve, MemoryStore.insertDeviceType] at h
    split at h
    · cases h
    · exact .inl ⟨store, rfl, (congrArg Prod.snd h).symm⟩
  | tables store =>
    refine .inr ⟨store, (store.serve (.insertDeviceType deviceType)).2, rfl, (congrArg Prod.snd h).symm, ?_⟩
    exact Prod.ext (congrArg Prod.fst h :) rfl

/-- What is registered is listed besides what was listed before. -/
theorem Filed.deviceTypes_perm_of_insert (h : backend.Filed)
    (hserved : backend.serve (.insertDeviceType deviceType) = (.ok deviceType, after)) :
    after.deviceTypes.Perm (backend.deviceTypes ++ [deviceType]) := by
  rcases insertDeviceType_cases hserved with ⟨store, rfl, rfl⟩ | ⟨store, made, rfl, rfl, hmade⟩
  · exact .refl _
  · have hlisted : store.deviceTypeList = .ok (tables store).deviceTypes := congrArg Prod.fst h.serve_listDeviceTypes
    obtain ⟨listed, hafter, hperm⟩ := TableStore.exists_deviceTypeList_of_insert hlisted hmade
    have hdeviceTypes : (tables made).deviceTypes = listed := by
      simp only [deviceTypes, Backend.serve, TableStore.serve, hafter]
    rwa [hdeviceTypes]

/-- What is registered is kept after the others. -/
theorem KeepsOrder.insert (h : backend.KeepsOrder types)
    (hserved : backend.serve (.insertDeviceType deviceType) = (.ok deviceType, after)) :
    after.KeepsOrder (types ++ [deviceType]) := by
  rcases insertDeviceType_cases hserved with ⟨store, rfl, rfl⟩ | ⟨store, made, rfl, rfl, hmade⟩
  · exact congrArg (· ++ [deviceType]) h
  · obtain ⟨hplace, hrows⟩ := h
    obtain ⟨-, rfl⟩ := TableStore.of_serve_insertDeviceType hmade
    have hnext : store.nextCount TableStore.placeCounter = .ofNat (types.length + 1) := by
      rw [TableStore.nextCount, hplace, Option.getD_some, UInt64.ofNat_add]
      rfl
    rw [KeepsOrder, hnext, List.length_append, List.length_singleton]
    refine ⟨by rw [Table.get?_put, if_pos rfl], fun hroom => ?_⟩
    rw [hrows (by omega)]
    exact TableStore.put_deviceTypeRows types deviceType hroom

/-- A device type is registered after the others. -/
theorem HasRegistered.insert (h : backend.HasRegistered types)
    (hfree : ∀ taken ∈ types, taken.id ≠ deviceType.id) (hblank : Text.isAllBlank deviceType.id = false)
    (hserved : backend.serve (.insertDeviceType deviceType) = (.ok deviceType, after)) :
    after.HasRegistered (types ++ [deviceType]) where
  filed := by
    have hfiled := h.filed.serve (.insertDeviceType deviceType)
    rwa [hserved] at hfiled
  keepsOrder := h.keepsOrder.insert hserved
  perm := (h.filed.deviceTypes_perm_of_insert hserved).trans (h.perm.append_right _)
  distinctIds := by
    rw [DeviceType.DistinctIds, List.map_append, List.map_singleton, List.nodup_append]
    refine ⟨h.distinctIds, List.pairwise_singleton _ _, ?_⟩
    rintro id hid other hother rfl
    obtain ⟨taken, htaken, heq⟩ := List.mem_map.1 hid
    exact hfree taken htaken (heq.trans (List.mem_singleton.1 hother))
  id_notBlank := by
    intro registered hmem
    rcases List.mem_append.1 hmem with hold | hlast
    · exact h.id_notBlank registered hold
    · rwa [List.mem_singleton.1 hlast]

/-- The id of a registered type finds this type. -/
theorem HasRegistered.find?_id (h : backend.HasRegistered types) (hmem : deviceType ∈ types) :
    DeviceType.find? backend.deviceTypes deviceType.id = some deviceType := by
  obtain ⟨before, later, hsplit⟩ := List.append_of_mem (h.perm.mem_iff.2 hmem)
  have hids : DeviceType.DistinctIds backend.deviceTypes := (h.perm.map DeviceType.id).nodup_iff.2 h.distinctIds
  rw [hsplit] at hids ⊢
  exact (DeviceType.find?_eq_some_iff hids).2 (.inl rfl)

end Backend

/-- A request to register a device type, with the id that it gets if the draft has none. -/
structure Registration where
  generated : Int64
  draft : DeviceTypeDraft

namespace Registration

/-- The answers to registrations asked for one after the other, and the backend after them. -/
def onAll : List Registration → Backend → List (Except PricingError DeviceType) × Backend
  | [], backend => ([], backend)
  | registration :: registrations, backend =>
    let answered := (Catalog.registerDeviceType registration.generated registration.draft).onBackend backend
    let rest := onAll registrations answered.2
    (answered.1 :: rest.1, rest.2)

/-- The device types that the accepted registrations answered, in this order. -/
def accepted (registrations : List Registration) (backend : Backend) : List DeviceType :=
  (onAll registrations backend).1.filterMap Except.toOption

variable {backend start : Backend} {types : List DeviceType}

/-- Registrations can be asked for in two parts. -/
theorem onAll_append (earlier later : List Registration) (backend : Backend) :
    onAll (earlier ++ later) backend =
      ((onAll earlier backend).1 ++ (onAll later (onAll earlier backend).2).1,
        (onAll later (onAll earlier backend).2).2) := by
  induction earlier generalizing backend with
  | nil => rfl
  | cons registration earlier ih => simp only [List.cons_append, onAll, ih]

/-- What was accepted in the first part is accepted in all. -/
theorem accepted_append (earlier later : List Registration) (backend : Backend) :
    accepted (earlier ++ later) backend =
      accepted earlier backend ++ accepted later (onAll earlier backend).2 := by
  rw [accepted, onAll_append, List.filterMap_append, accepted, accepted]

/-- A registration adds the type that it answers, or nothing if it is refused. -/
theorem hasRegistered_onBackend (h : backend.HasRegistered types) (generated : Int64) (draft : DeviceTypeDraft) :
    let answered := (Catalog.registerDeviceType generated draft).onBackend backend
    answered.2.HasRegistered (types ++ answered.1.toOption.toList) := by
  intro answered
  -- Whatever is refused adds nothing and changes nothing.
  have hrefused : ∀ error, answered = (.error error, backend) →
      answered.2.HasRegistered (types ++ answered.1.toOption.toList) := by
    intro error heq
    simpa [heq, Except.toOption] using h
  cases haccept : draft.accept with
  | error error => exact hrefused error (Catalog.onBackend_bind_of_error (Catalog.onBackend_ofExcept haccept))
  | ok new =>
    by_cases htaken : ∃ taken ∈ backend.deviceTypes, taken.id = (new.withId generated).id
    · obtain ⟨taken, hmem, hid⟩ := htaken
      exact hrefused _ (Catalog.onBackend_registerDeviceType_of_taken h.filed haccept hmem hid)
    · have hfree : ∀ taken ∈ backend.deviceTypes, taken.id ≠ (new.withId generated).id :=
        fun taken hmem hid => htaken ⟨taken, hmem, hid⟩
      obtain ⟨after, hserved⟩ := h.filed.exists_serve_insertDeviceType hfree
      have hanswered : answered = (.ok (new.withId generated), after) :=
        (Catalog.onBackend_registerDeviceType_of_accepted haccept).trans (Catalog.onBackend_demand hserved)
      rw [hanswered]
      exact h.insert (fun taken hmem => hfree taken (h.perm.mem_iff.2 hmem))
        (DeviceTypeDraft.isAllBlank_id_of_accept haccept generated) hserved

/-- After registrations, just the accepted ones were added. -/
theorem hasRegistered_onAll (h : backend.HasRegistered types) (registrations : List Registration) :
    (onAll registrations backend).2.HasRegistered (types ++ accepted registrations backend) := by
  induction registrations generalizing backend types with
  | nil => simpa [accepted, onAll] using h
  | cons registration registrations ih =>
    have hfirst := hasRegistered_onBackend h registration.generated registration.draft
    have hrest := ih hfirst
    rw [List.append_assoc] at hrest
    have haccepted : accepted (registration :: registrations) backend =
        ((Catalog.registerDeviceType registration.generated registration.draft).onBackend backend).1.toOption.toList ++
          accepted registrations
            ((Catalog.registerDeviceType registration.generated registration.draft).onBackend backend).2 := by
      rw [accepted, onAll, List.filterMap_cons]
      split
      · next hnone => rw [hnone]; rfl
      · next hsome => rw [hsome]; rfl
    rwa [haccepted]

end Registration

namespace Backend

variable {backend : Backend} {types : List DeviceType} {deviceType : DeviceType}

/-- The id of a registered type stands for its id, code and name, as far as they are not blank. -/
theorem HasRegistered.resolve_id (h : backend.HasRegistered types) (hmem : deviceType ∈ types) :
    ∃ aliases, (Catalog.resolve deviceType.id).run Backend.serve backend = (aliases, backend) ∧
      ∀ name, aliases.contains name = true ↔
        (name = deviceType.id ∨ deviceType.code = some name ∨ name = deviceType.name) ∧
          Text.isAllBlank name = false := by
  refine ⟨.ofDeviceType deviceType deviceType.id, ?_, fun name => ?_⟩
  · simp only [Catalog.resolve, StoreProgram.run, h.filed.serve_findDeviceType, h.find?_id hmem, Catalog.aliasesOf]
  · rw [AliasSet.contains_ofDeviceType, ← DeviceType.mem_aliases, or_iff_right_iff_imp]
    rintro rfl
    exact DeviceType.mem_aliases.2 ⟨.inl rfl, h.id_notBlank deviceType hmem⟩

/-- The registered types are listed, each once. They are in the order of their registration; tables keep this order while
they have numbers for the places. -/
theorem HasRegistered.list_eq (h : backend.HasRegistered types) :
    ∃ listed, Catalog.deviceTypes.onBackend backend = (.ok listed, backend) ∧ listed.Perm types ∧ types.Nodup ∧
      ((∃ store, backend = memory store) ∨ types.length < 2 ^ 64 → listed = types) := by
  refine ⟨backend.deviceTypes, Catalog.onBackend_demand h.filed.serve_listDeviceTypes, h.perm,
    List.Nodup.of_map _ h.distinctIds, fun hroom => ?_⟩
  have hkept := h.keepsOrder
  cases backend with
  | memory store => exact hkept
  | tables store =>
    have hshort : types.length < 2 ^ 64 := by simpa using hroom
    have hlisted := TableStore.deviceTypeList_of_eq_deviceTypeRows (hkept.2 hshort)
    simp only [deviceTypes, Backend.serve, TableStore.serve, hlisted]

end Backend

namespace Registration

/-- From its registration on, the id of a device type stands for just its id, code and name, as far as they are not
blank, whatever is registered later and whatever was registered before. All accepted types are listed, each once and in
the order of their registration; tables keep this order until they have numbered 2^64 places. -/
theorem id_standsFor_type {start : Backend} (hnew : start = .memory .empty ∨ start = .tables .empty)
    (earlier later : List Registration) :
    let types := accepted (earlier ++ later) start
    let after := (onAll (earlier ++ later) start).2
    (∀ deviceType ∈ accepted earlier start,
      ∃ aliases, (Catalog.resolve deviceType.id).run Backend.serve after = (aliases, after) ∧
        ∀ name, aliases.contains name = true ↔
          (name = deviceType.id ∨ deviceType.code = some name ∨ name = deviceType.name) ∧
            Text.isAllBlank name = false) ∧
      ∃ listed, Catalog.deviceTypes.onBackend after = (.ok listed, after) ∧ listed.Perm types ∧ types.Nodup ∧
        ((∃ store, after = .memory store) ∨ types.length < 2 ^ 64 → listed = types) := by
  intro types after
  have hregistered : after.HasRegistered types := by
    simpa only [List.nil_append] using hasRegistered_onAll (Backend.hasRegistered_new hnew) (earlier ++ later)
  have htypes : types = accepted earlier start ++ accepted later (onAll earlier start).2 :=
    accepted_append earlier later start
  have hkept : ∀ deviceType ∈ accepted earlier start, deviceType ∈ types := fun deviceType hmem =>
    htypes ▸ List.mem_append_left _ hmem
  exact ⟨fun deviceType hmem => hregistered.resolve_id (hkept deviceType hmem), hregistered.list_eq⟩

/-- A type with a generated id. -/
private def phone : Registration := ⟨7, ⟨some " ", some " PHONE ", "Phone"⟩⟩

/-- A type without a name, another one under the first id, and one whose code and name are the first id. -/
private def rivals : List Registration :=
  [⟨8, ⟨none, some "7", " "⟩⟩, ⟨9, ⟨some " 7", none, "Tablet"⟩⟩, ⟨10, ⟨some "t1", some "7", "7"⟩⟩]

/-- On tables, a code and a name that are equal to an id do not take its references. -/
theorem id_standsFor_type_rivals :
    accepted (phone :: rivals) (.tables .empty) = [⟨"7", some "PHONE", "Phone"⟩, ⟨"t1", some "7", "7"⟩] ∧
      ∃ aliases, ((Catalog.resolve "7").run Backend.serve (onAll (phone :: rivals) (.tables .empty)).2).1 = aliases ∧
        aliases.contains "PHONE" = true ∧ aliases.contains "t1" = false := by
  have haccepted : accepted [phone] (.tables .empty) = [⟨"7", some "PHONE", "Phone"⟩] := by decide +kernel
  have hall : accepted (phone :: rivals) (.tables .empty) =
      [⟨"7", some "PHONE", "Phone"⟩, ⟨"t1", some "7", "7"⟩] := by decide +kernel
  have hnew : Backend.tables .empty = .memory .empty ∨ Backend.tables .empty = .tables .empty := .inr rfl
  obtain ⟨hstands, -⟩ := id_standsFor_type hnew [phone] rivals
  obtain ⟨aliases, hresolved, hcontains⟩ := hstands ⟨"7", some "PHONE", "Phone"⟩ (by simp [haccepted])
  refine ⟨hall, aliases, congrArg Prod.fst hresolved, (hcontains "PHONE").2 ?_, Bool.eq_false_iff.2 fun hmem => ?_⟩
  · decide
  · have hname := ((hcontains "t1").1 hmem).1
    revert hname
    decide

end Registration

end TradeIn
