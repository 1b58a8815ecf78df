import TradeIn.Proofs.Catalog.Exclusivity

/-!
# The aliases of registered types

A name is looked up first as an id, then as a code, then as a name, and of several types it finds the one that was
registered first. Only ids are kept distinct, so an alias of a type may stand for another type: `find?_eq_some_iff` says
exactly when it stands for the type itself. Two aliases of a type stand for the same names if and only if the types that
they find have the same aliases, and then they have the same rules in effect.
-/

namespace TradeIn

namespace DeviceType

variable {before later : List DeviceType} {deviceType : DeviceType} {name : String}

/-- No two types have the same id. -/
def DistinctIds (types : List DeviceType) : Prop := (types.map DeviceType.id).Nodup

/-- A type of a list with distinct ids is not among the types before it. -/
private theorem DistinctIds.not_mem_before (h : DistinctIds (before ++ deviceType :: later)) : deviceType ∉ before := by
  intro hmem
  rw [DistinctIds, List.map_append, List.map_cons] at h
  exact (List.nodup_append.1 h).2.2 _ (List.mem_map_of_mem hmem) _ List.mem_cons_self rfl

/-- A type that is not among those before it is the first of its kind if none of those is. -/
private theorem find?_middle_iff {p : DeviceType → Bool} (hnew : deviceType ∉ before) :
    (before ++ deviceType :: later).find? p = some deviceType ↔
      p deviceType = true ∧ ∀ other ∈ before, p other = false := by
  rw [List.find?_append]
  cases hfind : before.find? p with
  | some found =>
    have hfound := List.mem_of_find?_eq_some hfind
    simp only [Option.some_or, Option.some.injEq]
    constructor
    · rintro rfl
      exact absurd hfound hnew
    · rintro ⟨-, hnone⟩
      exact absurd (hnone found hfound) (by simp [List.find?_some hfind])
  | none =>
    have hnone : ∀ other ∈ before, p other = false := by simpa using hfind
    rw [Option.none_or]
    constructor
    · intro h
      exact ⟨List.find?_some h, hnone⟩
    · rintro ⟨hp, -⟩
      rw [List.find?_cons_of_pos hp]

/-- A name finds a type if and only if it is its id; or no id, and the type is the first with this code; or no id and no
code, and the type is the first with this name. -/
theorem find?_eq_some_iff (hids : DistinctIds (before ++ deviceType :: later)) :
    find? (before ++ deviceType :: later) name = some deviceType ↔
      deviceType.id = name ∨
      (∀ other ∈ before ++ deviceType :: later, other.id ≠ name) ∧
        (deviceType.code = some name ∧ (∀ other ∈ before, other.code ≠ some name) ∨
        (∀ other ∈ before ++ deviceType :: later, other.code ≠ some name) ∧
          deviceType.name = name ∧ ∀ other ∈ before, other.name ≠ name) := by
  have hnew := hids.not_mem_before
  have hunique : deviceType.id = name → ∀ other ∈ before, other.id ≠ name := by
    rintro rfl other hother heq
    rw [DistinctIds, List.map_append, List.map_cons] at hids
    exact (List.nodup_append.1 hids).2.2 _ (List.mem_map_of_mem hother) _ List.mem_cons_self heq
  simp only [find?, Option.orElse_eq_some, find?_middle_iff hnew, List.find?_eq_none, beq_iff_eq, beq_eq_false_iff_ne]
  constructor
  · rintro (⟨hid, -⟩ | h)
    · exact .inl hid
    · exact .inr h
  · rintro (hid | h)
    · exact .inl ⟨hid, hunique hid⟩
    · exact .inr h

end DeviceType

namespace MemoryStore

/-- Whatever is called, device types keep distinct ids. -/
theorem distinctIds_serve {store : MemoryStore} (h : DeviceType.DistinctIds store.deviceTypes) (request : StoreCall) :
    DeviceType.DistinctIds (store.serve request).2.deviceTypes := by
  by_cases hregisters : ∃ deviceType, request = .insertDeviceType deviceType
  · obtain ⟨deviceType, rfl⟩ := hregisters
    simp only [serve, insertDeviceType]
    split
    · exact h
    · next hnew =>
      have hfree : ∀ other ∈ store.deviceTypes, other.id ≠ deviceType.id := by simpa using hnew
      simp only [DeviceType.DistinctIds, List.map_append, List.map_cons, List.map_nil]
      refine List.nodup_append.2 ⟨h, List.pairwise_singleton _ _, ?_⟩
      rintro id hid other hother rfl
      obtain ⟨type, htype, heq⟩ := List.mem_map.1 hid
      exact hfree type htype (heq.trans (List.mem_singleton.1 hother))
  · rw [deviceTypes_serve store fun deviceType heq => hregisters ⟨deviceType, heq⟩]
    exact h

end MemoryStore

namespace Catalog

variable {store : MemoryStore} {before later : List DeviceType} {deviceType : DeviceType} {a b : String}

/-- Registered types have distinct ids. -/
theorem distinctIds_storeAfter_empty (calls : List CatalogCall) :
    DeviceType.DistinctIds (storeAfter .empty calls).deviceTypes := by
  have hempty : DeviceType.DistinctIds MemoryStore.empty.deviceTypes := List.nodup_nil
  exact storeAfter_keeps (fun store => DeviceType.DistinctIds store.deviceTypes)
    (fun request _ h => MemoryStore.distinctIds_serve h request) hempty calls

/-- The names that a reference stands for in a store. -/
def resolvedIn (store : MemoryStore) (reference : String) : AliasSet :=
  ((resolve reference).run MemoryStore.serve store).1

/-- They are those of the type that the reference finds. -/
theorem resolvedIn_eq (store : MemoryStore) (reference : String) :
    resolvedIn store reference = DeviceType.aliasClass store.deviceTypes reference := rfl

/-- A reference that finds a type and is not blank stands for the aliases of the type. -/
private theorem contains_resolvedIn {name : String} (hblank : Text.isAllBlank a = false)
    (hfind : DeviceType.find? store.deviceTypes a = some deviceType) :
    (resolvedIn store a).contains name = true ↔ name ∈ deviceType.aliases := by
  rw [resolvedIn_eq, DeviceType.aliasClass, hfind, aliasesOf, AliasSet.contains_ofDeviceType]
  have halias := DeviceType.mem_aliases.2 ⟨(DeviceType.mem_of_find?_eq_some hfind).2, hblank⟩
  constructor
  · rintro (rfl | hname)
    · exact halias
    · exact hname
  · exact .inr

/-- An alias of a registered type finds some registered type. -/
private theorem exists_find?_eq_some {types : List DeviceType} (hmem : deviceType ∈ types)
    (halias : a ∈ deviceType.aliases) : ∃ found, DeviceType.find? types a = some found := by
  cases hfind : DeviceType.find? types a with
  | none => exact absurd halias (DeviceType.not_mem_aliases_of_find?_eq_none hfind deviceType hmem)
  | some found => exact ⟨found, rfl⟩

/-- When two aliases of a registered type are interchangeable. An alias finds the type itself if it is the type's id;
or no id, and the type is the first with this code; or no id and no code, and the type is the first with this name. Two
aliases stand for the same names if and only if the types that they find have the same aliases. Then any rule in effect
for one of them is in effect for the other, whatever rules there are. -/
theorem aliases_interchangeable_iff {calls : List CatalogCall}
    (hregistered : (storeAfter .empty calls).deviceTypes = before ++ deviceType :: later)
    (ha : a ∈ deviceType.aliases) (hb : b ∈ deviceType.aliases) :
    let types := before ++ deviceType :: later
    (∀ name ∈ deviceType.aliases, DeviceType.find? types name = some deviceType ↔
      deviceType.id = name ∨ (∀ other ∈ types, other.id ≠ name) ∧
        (deviceType.code = some name ∧ (∀ other ∈ before, other.code ≠ some name) ∨
        (∀ other ∈ types, other.code ≠ some name) ∧
          deviceType.name = name ∧ ∀ other ∈ before, other.name ≠ name)) ∧
    ∃ c e, DeviceType.find? types a = some c ∧ DeviceType.find? types b = some e ∧
      ∀ store : MemoryStore, store.deviceTypes = types →
        (resolvedIn store a = resolvedIn store b ↔ ∀ name, name ∈ c.aliases ↔ name ∈ e.aliases) ∧
        (resolvedIn store a = resolvedIn store b → ∀ kind rule,
          ((ruleInEffect a kind).alone store).1 = .ok rule ↔ ((ruleInEffect b kind).alone store).1 = .ok rule) := by
  have hids := hregistered ▸ distinctIds_storeAfter_empty calls
  have hmem : deviceType ∈ before ++ deviceType :: later := List.mem_append_right _ List.mem_cons_self
  obtain ⟨c, hc⟩ := exists_find?_eq_some hmem ha
  obtain ⟨e, he⟩ := exists_find?_eq_some hmem hb
  refine ⟨fun name _ => DeviceType.find?_eq_some_iff hids, c, e, hc, he, fun store htypes => ⟨?_, ?_⟩⟩
  · rw [← htypes] at hc he
    have hcontains : ∀ name, ((resolvedIn store a).contains name = true ↔ name ∈ c.aliases) ∧
        ((resolvedIn store b).contains name = true ↔ name ∈ e.aliases) := fun name =>
      ⟨contains_resolvedIn (DeviceType.mem_aliases.1 ha).2 hc, contains_resolvedIn (DeviceType.mem_aliases.1 hb).2 he⟩
    constructor
    · intro hsame name
      rw [← (hcontains name).1, ← (hcontains name).2, hsame]
    · intro hsame
      refine AliasSet.eq_of_contains fun name => ?_
      rw [(hcontains name).1, (hcontains name).2]
      exact hsame name
  · intro hsame kind rule
    simp only [alone_ruleInEffect, ← resolvedIn_eq, hsame]
    cases Rule.inEffect? (store.listRules (.ofAliases (resolvedIn store b) kind)) <;> simp

/-- Two types are registered under one name, the second one with a code. -/
private def sameNames : List CatalogCall :=
  [.register 0 ⟨some "t1", none, "Phone"⟩, .register 0 ⟨some "t2", some "PHONE", "Phone"⟩]

/-- The id and the code of the second type are interchangeable. -/
theorem aliases_interchangeable_iff_code :
    resolvedIn (storeAfter .empty sameNames) "t2" = resolvedIn (storeAfter .empty sameNames) "PHONE" := by
  have hregistered : (storeAfter .empty sameNames).deviceTypes =
      [⟨"t1", none, "Phone"⟩] ++ ⟨"t2", some "PHONE", "Phone"⟩ :: [] := by decide +kernel
  have h := aliases_interchangeable_iff (a := "t2") (b := "PHONE") hregistered (by decide +kernel) (by decide +kernel)
  obtain ⟨-, c, e, hc, he, hsame⟩ := h
  have hce : some c = some e := by
    rw [← hc, ← he]
    decide +kernel
  obtain rfl := Option.some.inj hce
  exact (hsame _ hregistered).1.2 fun _ => Iff.rfl

/-- The name of the second type is not interchangeable with its id: it stands for the aliases of the first type, and the
rule in effect for the id is not in effect for the name. -/
theorem name_not_interchangeable :
    let draft : RuleDraft := ⟨"t2", Rule.pricingKind, none, none, .object []⟩
    let store := storeAfter .empty (sameNames ++ [.change (.create 1 10 draft)])
    ∃ deviceType ∈ store.deviceTypes, "t2" ∈ deviceType.aliases ∧ "Phone" ∈ deviceType.aliases ∧
      resolvedIn store "t2" ≠ resolvedIn store "Phone" ∧
      ((ruleInEffect "t2" Rule.pricingKind).alone store).1.toOption.isSome ∧
      ¬((ruleInEffect "Phone" Rule.pricingKind).alone store).1.toOption.isSome := by
  decide +kernel

end Catalog

end TradeIn
