import TradeIn.Proofs.Catalog.Interleaving
import TradeIn.Proofs.DeviceType.AliasClass

/-!
# What operations in flight rely on

An operation in flight cannot know what the others write between two of its calls, but it can rely on what all of
them keep. `MemoryStore.Permits` says which calls operations make, and `MemoryStore.Later` what a store has in
common with the store after any such calls. The decisive part is that the active siblings of a rule never fall
back: once one of them has a stamp, some active sibling has that stamp or a later one (`MemoryStore.Reaches`).

`StoreProgram.Meets` states what a program does under this reliance: it makes permitted calls alone, and the store
satisfies a condition when the program ends.
-/

namespace TradeIn

namespace Rule

/-- Rules of one kind and one alias class. -/
def Siblings (types : List DeviceType) (a b : Rule) : Prop :=
  b.kind = a.kind ∧ DeviceType.aliasClass types b.typeAlias = DeviceType.aliasClass types a.typeAlias

variable {types : List DeviceType} {a b c : Rule}

/-- A rule is a sibling of itself. -/
theorem Siblings.refl (types : List DeviceType) (rule : Rule) : rule.Siblings types rule := ⟨rfl, rfl⟩

/-- Siblings of siblings are siblings. -/
theorem Siblings.trans (hab : a.Siblings types b) (hbc : b.Siblings types c) : a.Siblings types c :=
  ⟨hbc.1.trans hab.1, hbc.2.trans hab.2⟩

/-- A record is a sibling of itself at all times. -/
theorem SameRecord.siblings (types : List DeviceType) (h : a.SameRecord b) : a.Siblings types b :=
  ⟨h.kind_eq, by rw [h.typeAlias_eq]⟩

end Rule

namespace MemoryStore

/-- Among the active siblings of the rule, which may include the rule itself, one has this stamp or a later one. -/
def Reaches (types : List DeviceType) (store : MemoryStore) (rule : Rule) (stamp : Nat) : Prop :=
  ∃ winner, store.Holds winner ∧ winner.isActive = true ∧ rule.Siblings types winner ∧ stamp ≤ winner.stamp

/-- A consistent store over these device types whose rules have names. -/
structure Sound (types : List DeviceType) (store : MemoryStore) : Prop where
  consistent : store.Consistent
  deviceTypes_eq : store.deviceTypes = types
  named : ∀ rule, store.Holds rule → Text.isAllBlank rule.typeAlias = false

/-- The calls that operations make. A rule is made inactive only under a revision that an active sibling has left
behind, so that the latest active rule of a class is never the one. -/
def Permits (types : List DeviceType) (store : MemoryStore) : StoreCall → Prop
  | .insertRule rule => Text.isAllBlank rule.typeAlias = false
  | .setRuleActive _ active => active = true
  | .setRuleActiveIf id active revision =>
    active = false ∧ revision.toNat ≤ store.writeCount ∧
      ∀ rule, store.Holds rule → rule.id = id → rule.revision = revision →
        store.Reaches types rule (rule.stamp + 1)
  | .insertDeviceType _ => False
  | _ => True

/-- What holds of a store after permitted calls, by whomever they were made. -/
structure Later (types : List DeviceType) (store after : MemoryStore) : Prop where
  sound : after.Sound types
  writeCount_le : store.writeCount ≤ after.writeCount
  /-- A record stays, and what was written to it since has a later stamp. -/
  evolves : ∀ rule, store.Holds rule → ∃ now, after.Holds now ∧ rule.SameRecord now ∧
    (now = rule ∨ store.writeCount < now.stamp)
  /-- A rule with an old stamp was there before. -/
  unwritten : ∀ rule, after.Holds rule → rule.stamp ≤ store.writeCount → store.Holds rule
  reaches : ∀ rule stamp, store.Reaches types rule stamp → after.Reaches types rule stamp

variable {types : List DeviceType} {store after last : MemoryStore} {rule : Rule} {request : StoreCall}

/-- Without calls everything is as before. -/
theorem Sound.later_self (h : store.Sound types) : store.Later types store where
  sound := h
  writeCount_le := Nat.le_refl _
  evolves rule hrule := ⟨rule, hrule, .refl rule, .inl rfl⟩
  unwritten _ hrule _ := hrule
  reaches _ _ hreaches := hreaches

/-- Permitted calls after permitted calls. -/
theorem Later.trans (hfirst : store.Later types after) (hsecond : after.Later types last) :
    store.Later types last where
  sound := hsecond.sound
  writeCount_le := Nat.le_trans hfirst.writeCount_le hsecond.writeCount_le
  evolves rule hrule := by
    obtain ⟨between, hbetween, hsame, hstamp⟩ := hfirst.evolves rule hrule
    obtain ⟨now, hnow, hsame', hstamp'⟩ := hsecond.evolves between hbetween
    refine ⟨now, hnow, hsame.trans hsame', ?_⟩
    have hle := hfirst.writeCount_le
    rcases hstamp' with rfl | hlt
    · exact hstamp
    · exact .inr (by omega)
  unwritten rule hrule hstamp := by
    have hle := hfirst.writeCount_le
    exact hfirst.unwritten rule (hsecond.unwritten rule hrule (by omega)) hstamp
  reaches rule stamp hreaches := hsecond.reaches rule stamp (hfirst.reaches rule stamp hreaches)

/-- What operations may call now, they may call later. -/
theorem Permits.later (h : store.Permits types request) (hlater : store.Later types after) :
    after.Permits types request := by
  cases request with
  | setRuleActiveIf id active revision =>
    obtain ⟨hactive, hrevision, hreaches⟩ := h
    refine ⟨hactive, Nat.le_trans hrevision hlater.writeCount_le, ?_⟩
    rintro rule hrule hid rfl
    have hheld := hlater.unwritten rule hrule hrevision
    exact hlater.reaches _ _ (hreaches rule hheld hid rfl)
  | insertRule | setRuleActive | insertDeviceType | findRule | listRules | findDeviceType
  | listDeviceTypes => exact h

/-- A write to a rule that is held changes its activity and nothing else. Where it makes the rule inactive, the call
was conditional on the revision. -/
private theorem Sound.rewritten_of_writes (h : store.Sound types) (hpermits : store.Permits types request)
    (hwrites : store.Writes request rule) {old : Rule} (hold : store.Holds old) (hid : old.id = rule.id) :
    old.SameRecord rule ∧ (rule.isActive = true ∨ request = .setRuleActiveIf old.id false old.revision) := by
  cases hwrites with
  | insert hfree =>
    have hid : old.id = _ := hid
    rw [Holds, hid, hfree] at hold
    cases hold
  | @set id stored active hstored =>
    obtain rfl : old = stored := hold.eq_of_id_eq (h.consistent.keyed.holds_of_rule? hstored) hid
    exact ⟨Rule.sameRecord_rewritten _ _ _, .inl hpermits⟩
  | @setIf id stored active hstored =>
    obtain rfl : old = stored := hold.eq_of_id_eq (h.consistent.keyed.holds_of_rule? hstored) hid
    refine ⟨Rule.sameRecord_rewritten _ _ _, .inr ?_⟩
    rw [h.consistent.keyed.id_eq_of_rule? hstored, hpermits.1]

/-- A permitted write keeps what the active siblings of a rule have reached. -/
private theorem Sound.reaches_of_writes (h : store.Sound types) (hpermits : store.Permits types request)
    (hwrites : store.Writes request rule) (hfollows : store.Follows rule after)
    (hstamp : store.writeCount < rule.stamp) {target : Rule} {stamp : Nat}
    (hreaches : store.Reaches types target stamp) : after.Reaches types target stamp := by
  obtain ⟨winner, hwinner, hactive, hsiblings, hle⟩ := hreaches
  by_cases hid : winner.id = rule.id
  · obtain ⟨hsame, hnow | rfl⟩ := h.rewritten_of_writes hpermits hwrites hwinner hid
    · have hold := h.consistent.stamp_le winner hwinner
      exact ⟨rule, hfollows.holds, hnow, hsiblings.trans (hsame.siblings types), by omega⟩
    · -- The winner is made inactive, which is permitted because another rule is later still.
      obtain ⟨later, hlater, hlaterActive, hlaterSiblings, hlaterStamp⟩ := hpermits.2.2 winner hwinner rfl rfl
      have hne : later.id ≠ rule.id := by
        intro heq
        rw [hlater.eq_of_id_eq hwinner (heq.trans hid.symm)] at hlaterStamp
        omega
      exact ⟨later, hfollows.holds_iff.2 (.inr ⟨hne, hlater⟩), hlaterActive,
        hsiblings.trans hlaterSiblings, by omega⟩
  · exact ⟨winner, hfollows.holds_iff.2 (.inr ⟨hid, hwinner⟩), hactive, hsiblings, hle⟩

/-- The rule that a permitted call writes has a name. -/
private theorem Sound.named_of_writes (h : store.Sound types) (hpermits : store.Permits types request)
    (hwrites : store.Writes request rule) : Text.isAllBlank rule.typeAlias = false := by
  cases hwrites with
  | insert => exact hpermits
  | @set id stored active hstored => exact h.named stored (h.consistent.keyed.holds_of_rule? hstored)
  | @setIf id stored active hstored => exact h.named stored (h.consistent.keyed.holds_of_rule? hstored)

/-- A permitted call keeps what all operations rely on. -/
theorem Sound.later_serve (h : store.Sound types) (hpermits : store.Permits types request)
    (hroom : store.HasRoomFor request) : store.Later types (store.serve request).2 := by
  have hconsistent := h.consistent.serve hroom
  have hregister : ∀ deviceType, request ≠ .insertDeviceType deviceType := by
    rintro deviceType rfl
    exact hpermits
  have htypes := deviceTypes_serve store hregister
  rcases h.consistent.keyed.serve_cases request with ⟨rule, _, hwrites, hfollows⟩ | ⟨_, hrules, hrevision⟩
  · have hcount := hfollows.writeCount_eq hroom
    have hstamp := hfollows.stamp_eq_writeCount
    refine ⟨⟨hconsistent, htypes.trans h.deviceTypes_eq, ?_⟩, hroom, ?_, ?_, ?_⟩
    · intro other hother
      rcases hfollows.holds_iff.1 hother with rfl | ⟨_, hheld⟩
      · exact h.named_of_writes hpermits hwrites
      · exact h.named other hheld
    · intro old hold
      by_cases hid : old.id = rule.id
      · exact ⟨rule, hfollows.holds, (h.rewritten_of_writes hpermits hwrites hold hid).1, .inr (by omega)⟩
      · exact ⟨old, hfollows.holds_iff.2 (.inr ⟨hid, hold⟩), .refl old, .inl rfl⟩
    · intro other hother hle
      rcases hfollows.holds_iff.1 hother with rfl | ⟨_, hheld⟩
      · omega
      · exact hheld
    · intro target stamp hreaches
      exact h.reaches_of_writes hpermits hwrites hfollows (by omega) hreaches
  · have heq : (store.serve request).2 = store := by
      cases hserved : (store.serve request).2 with
      | mk rules deviceTypes revision =>
        rw [hserved] at hrules hrevision htypes
        cases store
        simp only at hrules hrevision htypes
        rw [hrules, hrevision, htypes]
    rw [heq]
    exact h.later_self

end MemoryStore

namespace StoreProgram

variable {α β : Type} {types : List DeviceType} {faults : Bool} {made part : List Rule}
  {store after : MemoryStore}

/-- The active rule that a call wrote, if it wrote one. -/
def activation (request : StoreCall) (result : request.Result) : List Rule :=
  ((request.written? result).filter fun rule => rule.isActive).toList

/-- From the store on, and whatever permitted calls others make between its own, the program makes permitted calls
alone, and its result, the activations it has made and the store at its end satisfy a condition. With faults, any
call may fail instead of being answered. -/
def Meets (types : List DeviceType) (faults : Bool) (ends : α → List Rule → MemoryStore → Prop) :
    StoreProgram α → List Rule → MemoryStore → Prop
  | done result, made, store => ends result made store
  | call request next, made, store =>
    store.Permits types request ∧
      (faults = true → ∀ error, Meets types faults ends (next (.error error)) made store) ∧
      ∀ now, store.Later types now → now.HasRoomFor request →
        Meets types faults ends (next (now.serve request).1)
          (activation request (now.serve request).1 ++ made) (now.serve request).2

variable {ends ends' : α → List Rule → MemoryStore → Prop}

/-- A condition that follows from another at the end is met with it. -/
theorem Meets.weaken {program : StoreProgram α} (h : program.Meets types faults ends made store)
    (hends : ∀ result made store, ends result made store → ends' result made store) :
    program.Meets types faults ends' made store := by
  induction program generalizing made store with
  | done result => exact hends _ _ _ h
  | call request next ih =>
    obtain ⟨hpermits, hfails, hserves⟩ := h
    exact ⟨hpermits, fun hfaults error => ih _ (hfails hfaults error),
      fun now hnow hroom => ih _ (hserves now hnow hroom)⟩

/-- Programs that follow each other meet what the second one meets from where the first one ends. -/
theorem Meets.andThen {program : StoreProgram β} {next : β → StoreProgram α}
    (h : program.Meets types faults (fun result made store => (next result).Meets types faults ends made store)
      made store) :
    (program.andThen next).Meets types faults ends made store := by
  induction program generalizing made store with
  | done result => exact h
  | call request rest ih =>
    obtain ⟨hpermits, hfails, hserves⟩ := h
    exact ⟨hpermits, fun hfaults error => ih _ (hfails hfaults error),
      fun now hnow hroom => ih _ (hserves now hnow hroom)⟩

/-- What others write before the program goes on does not matter, if it does not matter to the condition. -/
theorem Meets.later {program : StoreProgram α}
    (hstable : ∀ result made store after, ends result made store → store.Later types after →
      ends result made after)
    (h : program.Meets types faults ends made store) (hlater : store.Later types after) :
    program.Meets types faults ends made after := by
  induction program generalizing made store after with
  | done result => exact hstable _ _ _ _ h hlater
  | call request next ih =>
    obtain ⟨hpermits, hfails, hserves⟩ := h
    exact ⟨hpermits.later hlater, fun hfaults error => ih _ (hfails hfaults error) hlater,
      fun now hnow hroom => hserves now (hlater.trans hnow) hroom⟩

/-- A condition that is easier for fewer activations is met for fewer. -/
theorem Meets.fewer {program : StoreProgram α}
    (hfewer : ∀ result made part store, part ⊆ made → ends result made store → ends result part store)
    (h : program.Meets types faults ends made store) (hsub : part ⊆ made) :
    program.Meets types faults ends part store := by
  induction program generalizing made part store with
  | done result => exact hfewer _ _ _ _ hsub h
  | call request next ih =>
    obtain ⟨hpermits, hfails, hserves⟩ := h
    refine ⟨hpermits, fun hfaults error => ih _ (hfails hfaults error) hsub, ?_⟩
    intro now hnow hroom
    refine ih _ (hserves now hnow hroom) (List.append_subset.2 ⟨List.subset_append_left _ _, ?_⟩)
    exact fun rule hrule => List.mem_append_right _ (hsub hrule)

/-- What permitted calls do not change holds at the end too. -/
theorem Meets.frame {program : StoreProgram α} {kept : MemoryStore → Prop}
    (hkept : ∀ store after, kept store → store.Later types after → kept after)
    (h : program.Meets types faults ends made store) (hstore : kept store) :
    program.Meets types faults (fun result made store => ends result made store ∧ kept store) made store := by
  induction program generalizing made store with
  | done result => exact ⟨h, hstore⟩
  | call request next ih =>
    obtain ⟨hpermits, hfails, hserves⟩ := h
    refine ⟨hpermits, fun hfaults error => ih _ (hfails hfaults error) hstore, ?_⟩
    intro now hnow hroom
    have hafter := hnow.sound.later_serve (hpermits.later hnow) hroom
    exact ih _ (hserves now hnow hroom) (hkept _ _ hstore (hnow.trans hafter))

end StoreProgram

namespace CatalogProgram

variable {α β : Type} {types : List DeviceType} {faults : Bool} {made : List Rule} {store : MemoryStore}
  {ends : Except PricingError α → List Rule → MemoryStore → Prop}

/-- An operation goes on with a result, and ends with an error. -/
theorem meets_bind {program : CatalogProgram β} {next : β → CatalogProgram α}
    (h : StoreProgram.Meets types faults (fun result made store => match result with
      | .ok value => StoreProgram.Meets types faults ends (next value).run made store
      | .error error => ends (.error error) made store) program.run made store) :
    StoreProgram.Meets types faults ends (program >>= next).run made store := by
  apply StoreProgram.Meets.andThen
  apply h.weaken
  intro result made store hnext
  cases result with
  | ok value => exact hnext
  | error error => exact hnext

/-- An operation that makes a single call ends with its result. -/
theorem meets_demand {request : StoreCall} {ends : Except PricingError request.Answer → List Rule → MemoryStore → Prop}
    (hpermits : store.Permits types request)
    (hfails : faults = true → ∀ error, ends (.error (.ofStore error)) made store)
    (hserves : ∀ now, store.Later types now → now.HasRoomFor request →
      ends ((now.serve request).1.mapError .ofStore)
        (StoreProgram.activation request (now.serve request).1 ++ made) (now.serve request).2) :
    StoreProgram.Meets types faults ends (demand request).run made store :=
  ⟨hpermits, hfails, hserves⟩

end CatalogProgram

end TradeIn
