import Mathlib.Data.Option.Basic
import TradeIn.Catalog.Resolution

/-!
# Alias classes

While no name is an alias of two device types, the names fall into classes: all aliases of one type, or one name
that is no alias of any. A reference that is not blank then stands for exactly its class, whichever name of the
class it is.
-/

namespace TradeIn

namespace AliasSet

/-- Sets with the same names are equal. -/
theorem eq_of_contains {a b : AliasSet} (h : ∀ name, a.contains name = true ↔ b.contains name = true) :
    a = b := by
  have hmem : ∀ name, name ∈ a.names ↔ name ∈ b.names := by
    intro name
    simpa only [contains, List.contains_iff_mem] using h name
  have hperm : a.names.Perm b.names :=
    (List.perm_ext_iff_of_nodup (a.sorted.imp fun hlt => String.ne_of_lt hlt)
      (b.sorted.imp fun hlt => String.ne_of_lt hlt)).2 hmem
  have hnames : a.names = b.names := by
    refine hperm.eq_of_pairwise (fun x y _ _ hxy hyx => ?_) a.sorted b.sorted
    exact absurd (String.lt_trans hxy hyx) (String.lt_irrefl x)
  cases a
  cases b
  subst hnames
  rfl

/-- A reference alone stands for itself. -/
theorem contains_single (reference name : String) : (single reference).contains name = true ↔ name = reference := by
  rw [single, contains_ofList, List.mem_singleton]

/-- A reference to a type stands for itself and the aliases of the type. -/
theorem contains_ofDeviceType (deviceType : DeviceType) (reference name : String) :
    (ofDeviceType deviceType reference).contains name = true ↔
      name = reference ∨ name ∈ deviceType.aliases := by
  rw [ofDeviceType, contains_ofList, List.mem_cons]

end AliasSet

namespace DeviceType

/-- No name is an alias of two types. -/
def Unambiguous (types : List DeviceType) : Prop :=
  ∀ a ∈ types, ∀ b ∈ types, ∀ name ∈ a.aliases, name ∈ b.aliases → a = b

/-- The aliases of one device type, or one name that is no alias of any. -/
inductive IsAliasClass (types : List DeviceType) : AliasSet → Prop
  | ofType {deviceType : DeviceType} (hmem : deviceType ∈ types) :
    IsAliasClass types (.ofList deviceType.aliases)
  | unregistered {name : String} (hname : ∀ deviceType ∈ types, name ∉ deviceType.aliases) :
    IsAliasClass types (.single name)

/-- The names that a reference stands for while the store answers. -/
def aliasClass (types : List DeviceType) (reference : String) : AliasSet :=
  Catalog.aliasesOf reference (.ok (find? types reference))

/-- The aliases of a type are its id, code and name unless they are blank. -/
theorem mem_aliases {deviceType : DeviceType} {name : String} :
    name ∈ deviceType.aliases ↔
      (name = deviceType.id ∨ deviceType.code = some name ∨ name = deviceType.name) ∧
        Text.isAllBlank name = false := by
  simp [aliases]

/-- A reference names the type it finds, which is one of the types. -/
theorem mem_of_find?_eq_some {types : List DeviceType} {reference : String} {deviceType : DeviceType}
    (h : find? types reference = some deviceType) :
    deviceType ∈ types ∧
      (reference = deviceType.id ∨ deviceType.code = some reference ∨ reference = deviceType.name) := by
  simp only [find?, Option.orElse_eq_some] at h
  rcases h with h | ⟨_, h | ⟨_, h⟩⟩
  · have hid := List.find?_some h
    exact ⟨List.mem_of_find?_eq_some h, .inl (eq_of_beq hid).symm⟩
  · have hcode := List.find?_some h
    exact ⟨List.mem_of_find?_eq_some h, .inr (.inl (eq_of_beq hcode))⟩
  · have hname := List.find?_some h
    exact ⟨List.mem_of_find?_eq_some h, .inr (.inr (eq_of_beq hname).symm)⟩

/-- A reference that finds no type is the id, code or name of none. -/
theorem not_mem_aliases_of_find?_eq_none {types : List DeviceType} {reference : String}
    (h : find? types reference = none) : ∀ deviceType ∈ types, reference ∉ deviceType.aliases := by
  simp only [find?, Option.orElse_eq_none, List.find?_eq_none, beq_iff_eq] at h
  obtain ⟨hid, hcode, hname⟩ := h
  intro deviceType hmem halias
  rcases (mem_aliases.1 halias).1 with heq | heq | heq
  · exact hid deviceType hmem heq.symm
  · exact hcode deviceType hmem heq
  · exact hname deviceType hmem heq.symm

variable {types : List DeviceType} {a b : String}

/-- A reference stands for itself. -/
theorem contains_aliasClass_self (types : List DeviceType) (reference : String) :
    (aliasClass types reference).contains reference = true := by
  unfold aliasClass
  cases find? types reference with
  | none => exact (AliasSet.contains_single _ _).2 rfl
  | some deviceType => exact (AliasSet.contains_ofDeviceType _ _ _).2 (.inl rfl)

/-- An alias of a type that is not ambiguous stands for all aliases of the type. -/
theorem aliasClass_eq_of_mem (htypes : Unambiguous types) {deviceType : DeviceType}
    (hmem : deviceType ∈ types) (halias : a ∈ deviceType.aliases) :
    aliasClass types a = .ofList deviceType.aliases := by
  cases hfind : find? types a with
  | none => exact absurd halias (not_mem_aliases_of_find?_eq_none hfind deviceType hmem)
  | some found =>
    obtain ⟨hfound, hnames⟩ := mem_of_find?_eq_some hfind
    have hfoundAlias : a ∈ found.aliases := mem_aliases.2 ⟨hnames, (mem_aliases.1 halias).2⟩
    have heq : found = deviceType := htypes found hfound deviceType hmem a hfoundAlias halias
    subst heq
    apply AliasSet.eq_of_contains
    intro name
    rw [aliasClass, hfind, Catalog.aliasesOf, AliasSet.contains_ofDeviceType, AliasSet.contains_ofList]
    constructor
    · rintro (rfl | hname)
      · exact hfoundAlias
      · exact hname
    · exact .inr

/-- A name that is no alias of any type stands for itself alone, unless it is blank. -/
theorem aliasClass_eq_single (hblank : Text.isAllBlank a = false)
    (hnone : ∀ deviceType ∈ types, a ∉ deviceType.aliases) : aliasClass types a = .single a := by
  cases hfind : find? types a with
  | none => rw [aliasClass, hfind, Catalog.aliasesOf]
  | some found =>
    obtain ⟨hfound, hnames⟩ := mem_of_find?_eq_some hfind
    exact absurd (mem_aliases.2 ⟨hnames, hblank⟩) (hnone found hfound)

/-- Every name of an alias class that is not blank stands for the class. -/
theorem IsAliasClass.eq_aliasClass {aliases : AliasSet} (hclass : IsAliasClass types aliases)
    (htypes : Unambiguous types) (hblank : Text.isAllBlank a = false) (ha : aliases.contains a = true) :
    aliasClass types a = aliases := by
  cases hclass with
  | ofType hmem => exact aliasClass_eq_of_mem htypes hmem ((AliasSet.contains_ofList _ _).1 ha)
  | unregistered hname =>
    have heq := (AliasSet.contains_single _ _).1 ha
    subst heq
    exact aliasClass_eq_single hblank hname

/-- What a name that is not blank stands for is an alias class. -/
theorem isAliasClass_aliasClass (htypes : Unambiguous types) (hblank : Text.isAllBlank a = false) :
    IsAliasClass types (aliasClass types a) := by
  by_cases h : ∃ deviceType ∈ types, a ∈ deviceType.aliases
  · obtain ⟨deviceType, hmem, halias⟩ := h
    rw [aliasClass_eq_of_mem htypes hmem halias]
    exact .ofType hmem
  · have hnone : ∀ deviceType ∈ types, a ∉ deviceType.aliases := fun deviceType hmem halias =>
      h ⟨deviceType, hmem, halias⟩
    rw [aliasClass_eq_single hblank hnone]
    exact .unregistered hnone

/-- Two names of one class stand for the same names. -/
theorem aliasClass_eq_of_contains (htypes : Unambiguous types) (ha : Text.isAllBlank a = false)
    (hb : Text.isAllBlank b = false) (h : (aliasClass types a).contains b = true) :
    aliasClass types b = aliasClass types a :=
  (isAliasClass_aliasClass htypes ha).eq_aliasClass htypes hb h

/-- Names that are not blank stand for those of the set, if they are in it. -/
def Closed (types : List DeviceType) (aliases : AliasSet) : Prop :=
  ∀ a b, Text.isAllBlank a = false → Text.isAllBlank b = false → aliases.contains a = true →
    ((aliasClass types a).contains b = true ↔ aliases.contains b = true)

/-- What any reference stands for is closed. -/
theorem closed_aliasClass (htypes : Unambiguous types) (reference : String) :
    Closed types (aliasClass types reference) := by
  intro a b ha hb hmem
  by_cases hreference : Text.isAllBlank reference = true
  · -- A blank reference is no alias, but it may be the id, code or name of a type.
    have hne : ∀ name, Text.isAllBlank name = false → name ≠ reference := by
      rintro name hname rfl
      rw [hreference] at hname
      cases hname
    cases hfind : find? types reference with
    | none =>
      rw [aliasClass, hfind] at hmem
      exact absurd ((AliasSet.contains_single _ _).1 hmem) (hne a ha)
    | some found =>
      have hcontains : ∀ name, Text.isAllBlank name = false →
          ((aliasClass types reference).contains name = true ↔ name ∈ found.aliases) := by
        intro name hname
        rw [aliasClass, hfind, Catalog.aliasesOf, AliasSet.contains_ofDeviceType]
        simp [hne name hname]
      rw [aliasClass_eq_of_mem htypes (mem_of_find?_eq_some hfind).1 ((hcontains a ha).1 hmem),
        AliasSet.contains_ofList, hcontains b hb]
  · rw [aliasClass_eq_of_contains htypes (by simpa using hreference) ha hmem]

end DeviceType

end TradeIn
