import TradeIn.Proofs.Catalog.Activation
import TradeIn.Proofs.Json.Reading

/-!
# Exclusive activity over histories

Device types may be registered before, between and after the calls that create and activate rules. Two things keep rules
of one kind active together under the aliases of one type. A registration sees no rules, so it may bring rules under the
aliases of a type that were made active apart. And types may share codes and names: a shared name stands for only one of
them, so settling under it looks at the aliases of that type only. Apart from that, at most one rule of a kind is active
under the aliases of a type that name it: once this holds after the registration it goes on to hold, and it does hold
from the next activation on.
-/

namespace TradeIn

namespace DeviceType

variable {types more : List DeviceType} {deviceType : DeviceType} {reference : String}

/-- The first of some items is the first of the earliest ones, if it is among these. -/
private theorem find?_of_mem_earlier {p : DeviceType → Bool} (hearlier : types <+: more) (hmem : deviceType ∈ types)
    (h : more.find? p = some deviceType) : types.find? p = some deviceType := by
  obtain ⟨rest, rfl⟩ := hearlier
  rw [List.find?_append] at h
  cases hfind : types.find? p with
  | some found =>
    rw [hfind] at h
    exact h
  | none => exact absurd (List.find?_some (List.find?_append ▸ h)) (List.find?_eq_none.1 hfind deviceType hmem)

/-- A reference that names a type has named it since the type was registered. -/
theorem find?_of_earlier (hearlier : types <+: more) (hmem : deviceType ∈ types)
    (h : find? more reference = some deviceType) : find? types reference = some deviceType := by
  have hnone : ∀ {p : DeviceType → Bool}, more.find? p = none → types.find? p = none := by
    intro p hmore
    rw [List.find?_eq_none] at hmore ⊢
    exact fun other hother => hmore other (hearlier.subset hother)
  simp only [find?, Option.orElse_eq_some] at h ⊢
  rcases h with hid | ⟨hid, hcode | ⟨hcode, hname⟩⟩
  · exact .inl (find?_of_mem_earlier hearlier hmem hid)
  · exact .inr ⟨hnone hid, .inl (find?_of_mem_earlier hearlier hmem hcode)⟩
  · exact .inr ⟨hnone hid, .inr ⟨hnone hcode, find?_of_mem_earlier hearlier hmem hname⟩⟩

/-- The aliases of a type that name it: not those that stand for a type found before it. -/
def ownAliases (types : List DeviceType) (deviceType : DeviceType) : List String :=
  deviceType.aliases.filter fun name => find? types name = some deviceType

theorem mem_ownAliases {name : String} :
    name ∈ deviceType.ownAliases types ↔ name ∈ deviceType.aliases ∧ find? types name = some deviceType := by
  simp [ownAliases]

theorem ownAliases_subset_aliases (types : List DeviceType) (deviceType : DeviceType) :
    deviceType.ownAliases types ⊆ deviceType.aliases := List.filter_sublist.subset

/-- Registrations can only take aliases away from a type. -/
theorem ownAliases_subset (hearlier : types <+: more) (hmem : deviceType ∈ types) :
    deviceType.ownAliases more ⊆ deviceType.ownAliases types := by
  intro name hname
  obtain ⟨halias, hfind⟩ := mem_ownAliases.1 hname
  exact mem_ownAliases.2 ⟨halias, find?_of_earlier hearlier hmem hfind⟩

/-- An alias that names a type stands for all aliases of the type. -/
theorem contains_aliasClass {name other : String} (hname : name ∈ deviceType.ownAliases types)
    (hother : other ∈ deviceType.aliases) : (aliasClass types name).contains other = true := by
  rw [aliasClass, (mem_ownAliases.1 hname).2, Catalog.aliasesOf, AliasSet.contains_ofDeviceType]
  exact .inr hother

end DeviceType

namespace MemoryStore

variable {store after : MemoryStore} {aliases others : AliasSet} {kind : String}

/-- Where at most one rule is active, at most one of fewer is. -/
theorem length_activeRules_le_of_subset (hstore : store.Keyed) (hafter : after.Keyed)
    (hsubset : after.activeRules aliases kind ⊆ store.activeRules others kind)
    (hone : (store.activeRules others kind).length ≤ 1) : (after.activeRules aliases kind).length ≤ 1 := by
  rw [hstore.length_activeRules_le_one_iff] at hone
  rw [hafter.length_activeRules_le_one_iff]
  exact fun a ha b hb => hone a (hsubset ha) b (hsubset hb)

end MemoryStore

namespace Catalog

/-- A call of the catalog. -/
inductive CatalogCall where
  /-- Register a device type; the generated id is used if the draft has none. -/
  | register (generated : Int64) (draft : DeviceTypeDraft)
  /-- Create or activate a rule. -/
  | change (operation : Operation)

namespace CatalogCall

/-- The store after a call that runs alone. -/
def onStore (store : MemoryStore) : CatalogCall → MemoryStore
  | register generated draft => ((registerDeviceType generated draft).alone store).2
  | change operation => (operation.alone store).2

/-- The device type that a call registers. -/
def registered? (store : MemoryStore) : CatalogCall → Option DeviceType
  | register generated draft => ((registerDeviceType generated draft).alone store).1.toOption
  | change _ => none

/-- The active rule that a call answers with. -/
def activated? (store : MemoryStore) : CatalogCall → Option Rule
  | register _ _ => none
  | change operation => (operation.alone store).1.toOption.filter fun rule => rule.isActive

end CatalogCall

/-- The store after calls that run one after the other. -/
def storeAfter (store : MemoryStore) (calls : List CatalogCall) : MemoryStore := calls.foldl CatalogCall.onStore store

variable {store : MemoryStore} {call : CatalogCall} {deviceType : DeviceType} {names : List String} {kind : String}

/-- The first call is followed by the others. -/
theorem storeAfter_cons (store : MemoryStore) (call : CatalogCall) (calls : List CatalogCall) :
    storeAfter store (call :: calls) = storeAfter (call.onStore store) calls := rfl

/-- The store after some calls and then others. -/
theorem storeAfter_append (store : MemoryStore) (calls others : List CatalogCall) :
    storeAfter store (calls ++ others) = storeAfter (storeAfter store calls) others := List.foldl_append

/-- What every call of the store keeps, a call of the catalog keeps. -/
theorem onStore_keeps (kept : MemoryStore → Prop)
    (hserve : ∀ request store, kept store → kept (MemoryStore.serve request store).2) (h : kept store)
    (call : CatalogCall) : kept (call.onStore store) := by
  cases call with
  | register generated draft => exact StoreProgram.run_keeps kept hserve (registerDeviceType generated draft).run h
  | change operation => exact StoreProgram.run_keeps kept hserve operation.program h

/-- So do several. -/
theorem storeAfter_keeps (kept : MemoryStore → Prop)
    (hserve : ∀ request store, kept store → kept (MemoryStore.serve request store).2) (h : kept store)
    (calls : List CatalogCall) : kept (storeAfter store calls) := by
  induction calls generalizing store with
  | nil => exact h
  | cons call calls ih => exact ih (onStore_keeps kept hserve h call)

/-- A call leaves all rules under their ids. -/
theorem keyed_onStore (h : store.Keyed) (call : CatalogCall) : (call.onStore store).Keyed :=
  onStore_keeps MemoryStore.Keyed (fun request _ hkeyed => hkeyed.serve request) h call

/-- After any calls all rules are under their ids. -/
theorem keyed_storeAfter_empty (calls : List CatalogCall) : (storeAfter .empty calls).Keyed :=
  storeAfter_keeps MemoryStore.Keyed (fun request _ hkeyed => hkeyed.serve request) MemoryStore.keyed_empty calls

/-- Device types stay where they are in the order of registration. -/
theorem deviceTypes_prefix_storeAfter (store : MemoryStore) (calls : List CatalogCall) :
    store.deviceTypes <+: (storeAfter store calls).deviceTypes :=
  storeAfter_keeps (fun after => store.deviceTypes <+: after.deviceTypes)
    (fun request after hearlier => hearlier.trans (after.deviceTypes_prefix_serve request)) List.prefix_rfl calls

/-- A registered device type is registered after a call. -/
theorem mem_deviceTypes_onStore (h : deviceType ∈ store.deviceTypes) (call : CatalogCall) :
    deviceType ∈ (call.onStore store).deviceTypes :=
  (deviceTypes_prefix_storeAfter store [call]).subset h

/-- A registration is refused, or puts the device type at the end. Rules are not touched. -/
theorem alone_registerDeviceType (store : MemoryStore) (generated : Int64) (draft : DeviceTypeDraft) :
    ((registerDeviceType generated draft).alone store).2.rules = store.rules ∧
      ∀ deviceType, ((registerDeviceType generated draft).alone store).1 = .ok deviceType →
        deviceType ∈ ((registerDeviceType generated draft).alone store).2.deviceTypes := by
  unfold registerDeviceType
  cases hnew : draft.accept with
  | error error =>
    rw [CatalogProgram.alone_bind_of_error rfl]
    exact ⟨rfl, by rintro deviceType ⟨⟩⟩
  | ok new =>
    rw [CatalogProgram.alone_bind_of_ok rfl, CatalogProgram.alone_demand]
    simp only [MemoryStore.serve, MemoryStore.insertDeviceType]
    split
    · exact ⟨rfl, by rintro deviceType ⟨⟩⟩
    · refine ⟨rfl, ?_⟩
      rintro deviceType ⟨⟩
      exact List.mem_append_right _ (List.mem_singleton_self _)

/-- Where an operation has made one rule active, at most one rule is active under aliases that the rule's alias stands
for. -/
theorem length_activeRules_le_of_settled {after : MemoryStore} {activated : Rule} (hafter : after.Keyed)
    (hkind : activated.kind = kind)
    (hone : (after.activeRules (DeviceType.aliasClass store.deviceTypes activated.typeAlias) activated.kind).length ≤ 1)
    (hnames : ∀ name ∈ names, (DeviceType.aliasClass store.deviceTypes activated.typeAlias).contains name = true) :
    (after.activeRules (.ofList names) kind).length ≤ 1 := by
  rw [hkind] at hone
  refine MemoryStore.length_activeRules_le_of_subset hafter hafter (fun rule hrule => ?_) hone
  obtain ⟨hholds, hactive, hruleKind, halias⟩ := hafter.mem_activeRules_iff.1 hrule
  exact hafter.mem_activeRules_iff.2 ⟨hholds, hactive, hruleKind, hnames _ ((AliasSet.contains_ofList _ _).1 halias)⟩

/-- Where at most one rule of a kind is active under some names of a type that are its own, a call leaves at most one
active. -/
theorem length_activeRules_onStore_le (h : store.Keyed) (hnames : names ⊆ deviceType.ownAliases store.deviceTypes)
    (hone : (store.activeRules (.ofList names) kind).length ≤ 1) (call : CatalogCall) :
    ((call.onStore store).activeRules (.ofList names) kind).length ≤ 1 := by
  have hafter := keyed_onStore h call
  -- Without a rule that is new among the active ones there are no more of them.
  have hfewer : (∀ rule, (call.onStore store).Holds rule → rule.isActive = true → rule.kind = kind →
      rule.typeAlias ∈ names → store.Holds rule) →
      ((call.onStore store).activeRules (.ofList names) kind).length ≤ 1 := by
    intro hold
    refine MemoryStore.length_activeRules_le_of_subset h hafter (fun rule hrule => ?_) hone
    obtain ⟨hholds, hactive, hkind, halias⟩ := hafter.mem_activeRules_iff.1 hrule
    have hname := (AliasSet.contains_ofList _ _).1 halias
    exact h.mem_activeRules_iff.2 ⟨hold rule hholds hactive hkind hname, hactive, hkind, halias⟩
  cases call with
  | register generated draft =>
    refine hfewer fun rule hrule _ _ _ => ?_
    have hrules := (alone_registerDeviceType store generated draft).1
    rw [MemoryStore.Holds, MemoryStore.rule?, ← hrules]
    exact hrule
  | change operation =>
    rcases operation.alone_cases h with ⟨hnone, -⟩ | ⟨activated, hactive, hsettled, -⟩
    · exact hfewer fun rule hrule hruleActive _ _ => hnone rule hrule hruleActive
    · by_cases hsibling : activated.kind = kind ∧ activated.typeAlias ∈ names
      · refine length_activeRules_le_of_settled hafter hsibling.1 hsettled fun name hname => ?_
        exact DeviceType.contains_aliasClass (hnames hsibling.2) (DeviceType.mem_ownAliases.1 (hnames hname)).1
      · refine hfewer fun rule hrule hruleActive hkind halias => ?_
        rcases hactive rule hrule hruleActive with rfl | hholds
        · exact absurd ⟨hkind, halias⟩ hsibling
        · exact hholds

/-- A call that answers with an active rule under a name that is a type's own leaves at most one rule of its kind active
under the aliases of the type. -/
theorem length_activeRules_le_of_activated (h : store.Keyed) {rule : Rule}
    (hactivated : call.activated? store = some rule)
    (halias : rule.typeAlias ∈ deviceType.ownAliases store.deviceTypes) (hnames : names ⊆ deviceType.aliases) :
    ((call.onStore store).activeRules (.ofList names) rule.kind).length ≤ 1 := by
  have hafter := keyed_onStore h call
  cases call with
  | register generated draft => cases hactivated
  | change operation =>
    obtain ⟨hanswer, hruleActive⟩ : (operation.alone store).1.toOption = some rule ∧ rule.isActive = true := by
      simpa [CatalogCall.activated?, Option.filter_eq_some_iff] using hactivated
    have hanswer := eq_ok_of_toOption hanswer
    rcases operation.alone_cases h with ⟨-, hinactive⟩ | ⟨activated, -, hsettled, hsame⟩
    · rw [hinactive rule hanswer] at hruleActive
      cases hruleActive
    · have hrecord := hsame rule hanswer
      refine length_activeRules_le_of_settled hafter hrecord.kind_eq.symm hsettled fun name hname => ?_
      rw [← hrecord.typeAlias_eq]
      exact DeviceType.contains_aliasClass halias (hnames hname)

/-- Where at most one rule of a kind is active under some names of a registered type, no calls change that, as long as
the names are its own. -/
theorem length_activeRules_storeAfter_le (h : store.Keyed) (hmem : deviceType ∈ store.deviceTypes)
    {calls : List CatalogCall} (hnames : names ⊆ deviceType.ownAliases (storeAfter store calls).deviceTypes)
    (hone : (store.activeRules (.ofList names) kind).length ≤ 1) :
    ((storeAfter store calls).activeRules (.ofList names) kind).length ≤ 1 := by
  induction calls generalizing store with
  | nil => exact hone
  | cons call calls ih =>
    have hearlier := DeviceType.ownAliases_subset (deviceTypes_prefix_storeAfter store (call :: calls)) hmem
    have hnext := length_activeRules_onStore_le h (List.Subset.trans hnames hearlier) hone call
    exact ih (keyed_onStore h call) (mem_deviceTypes_onStore hmem call) hnames hnext

/-- The aliases that are a type's own after some calls from the beginning. -/
def ownAliasesAfter (calls : List CatalogCall) (deviceType : DeviceType) : List String :=
  deviceType.ownAliases (storeAfter .empty calls).deviceTypes

/-- The rules of a kind that are active under some names after some calls from the beginning. -/
def activeAfter (calls : List CatalogCall) (names : List String) (kind : String) : List Rule :=
  (storeAfter .empty calls).activeRules (.ofList names) kind

/-- A device type stays registered. -/
theorem mem_deviceTypes_storeAfter (h : call.registered? store = some deviceType) (calls : List CatalogCall) :
    deviceType ∈ (storeAfter (call.onStore store) calls).deviceTypes := by
  cases call with
  | change operation => cases h
  | register generated draft =>
    have hmem := (alone_registerDeviceType store generated draft).2 deviceType (eq_ok_of_toOption h)
    exact (deviceTypes_prefix_storeAfter _ calls).subset hmem

/-- At most one rule of a kind is active under the aliases that are a device type's own, if that was so at some time
since its registration, or a call has made a rule of the kind active since then under one of these aliases. -/
theorem exclusive_since_registration {before later : List CatalogCall} {registration : CatalogCall}
    (hregistered : registration.registered? (storeAfter .empty before) = some deviceType)
    (hbegun : ∃ first rest, later = first ++ rest ∧
      ((activeAfter (before ++ registration :: first)
          (ownAliasesAfter (before ++ registration :: later) deviceType) kind).length ≤ 1 ∨
        ∃ activation tail rule, rest = activation :: tail ∧
          activation.activated? (storeAfter .empty (before ++ registration :: first)) = some rule ∧
          rule.kind = kind ∧ rule.typeAlias ∈ ownAliasesAfter (before ++ registration :: first) deviceType)) :
    (activeAfter (before ++ registration :: later)
      (ownAliasesAfter (before ++ registration :: later) deviceType) kind).length ≤ 1 := by
  obtain ⟨first, rest, rfl, hbegun⟩ := hbegun
  -- The store at that time, and the names that will be the type's own at the end.
  have hkeyed := keyed_storeAfter_empty (before ++ registration :: first)
  have hmem : deviceType ∈ (storeAfter .empty (before ++ registration :: first)).deviceTypes := by
    rw [storeAfter_append, storeAfter_cons]
    exact mem_deviceTypes_storeAfter hregistered first
  have hend : storeAfter .empty (before ++ registration :: (first ++ rest)) =
      storeAfter (storeAfter .empty (before ++ registration :: first)) rest := by
    rw [← storeAfter_append, List.append_assoc, List.cons_append]
  simp only [activeAfter, ownAliasesAfter, hend] at hbegun ⊢
  generalize storeAfter .empty (before ++ registration :: first) = store at hkeyed hmem hbegun ⊢
  rcases hbegun with hone | ⟨activation, tail, rule, rfl, hactivated, rfl, halias⟩
  · exact length_activeRules_storeAfter_le hkeyed hmem (List.Subset.refl _) hone
  · -- The activation leaves at most one rule active, and the calls after it keep that.
    rw [storeAfter_cons]
    have hmemAfter := mem_deviceTypes_onStore hmem activation
    refine length_activeRules_storeAfter_le (keyed_onStore hkeyed activation) hmemAfter (List.Subset.refl _) ?_
    exact length_activeRules_le_of_activated hkeyed hactivated halias (DeviceType.ownAliases_subset_aliases _ _)

/-- A draft of an active rule under an alias. -/
private def activeDraft (typeAlias : String) : RuleDraft where
  typeAlias
  kind := Rule.pricingKind
  version := none
  isActive := some true
  body := .object []

/-- Two rules are active under the id and the name of a type when it is registered. Making the first active again leaves
only that one active, and it stays so after a type with the same name is registered. -/
theorem exclusive_since_registration_reactivated :
    let before : List CatalogCall :=
      [.change (.create 1 10 (activeDraft "t1")), .change (.create 2 20 (activeDraft "Phone"))]
    let registration : CatalogCall := .register 0 ⟨some "t1", none, "Phone"⟩
    let later : List CatalogCall := [.change (.activate 1), .register 0 ⟨some "t2", none, "Phone"⟩]
    (activeAfter (before ++ [registration]) ["t1", "Phone"] Rule.pricingKind).length = 2 ∧
      (activeAfter (before ++ registration :: later) (ownAliasesAfter (before ++ registration :: later)
        ⟨"t1", none, "Phone"⟩) Rule.pricingKind).length ≤ 1 := by
  refine ⟨by decide +kernel, exclusive_since_registration (by decide +kernel) ?_⟩
  refine ⟨[], [.change (.activate 1), .register 0 ⟨some "t2", none, "Phone"⟩], rfl, .inr ?_⟩
  refine ⟨.change (.activate 1), [.register 0 ⟨some "t2", none, "Phone"⟩],
    ⟨1, "t1", Rule.pricingKind, 1, true, .object [], 10, 3⟩, rfl, ?_⟩
  decide +kernel

/-- Rules are made active under two names, and then a type is registered with both. -/
private def lateRegistration : List CatalogCall :=
  [.change (.create 1 10 (activeDraft "t1")), .change (.create 2 20 (activeDraft "Phone")),
    .register 0 ⟨some "t1", none, "Phone"⟩]

/-- Two types are registered under one name, and then rules are made active under the id of the second and the name. -/
private def sharedName : List CatalogCall :=
  [.register 0 ⟨some "t1", none, "Phone"⟩, .register 0 ⟨some "t2", none, "Phone"⟩,
    .change (.create 1 10 (activeDraft "t2")), .change (.create 2 20 (activeDraft "Phone"))]

/-- Two rules of a kind can be active under the aliases of a type: those that were made active under its id and its name
before it was registered, and those under its id and a name that stands for another type. -/
theorem two_active_rules :
    (∃ phone ∈ (storeAfter .empty lateRegistration).deviceTypes,
      (activeAfter lateRegistration phone.aliases Rule.pricingKind).length = 2) ∧
    ∃ phone ∈ (storeAfter .empty sharedName).deviceTypes,
      (activeAfter sharedName phone.aliases Rule.pricingKind).length = 2 := by
  decide +kernel

end Catalog

end TradeIn
