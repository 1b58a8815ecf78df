import TradeIn.Proofs.Catalog.Reliance

/-!
# What settling leaves behind

After an activation the operation settles: it lists the active siblings and makes all but the latest inactive. While
it does so, other operations may activate other siblings, and their later stamps protect them. At its end every
active sibling of the activated rule is at least as late as the activation (`MemoryStore.Settled`), unless a call has
failed. The operations of the catalog are put together from the calls in this way (`Operation.meets`).
-/

namespace TradeIn

namespace MemoryStore

/-- The record of a rule that was read is there, in that form or a later one. -/
def Retains (store : MemoryStore) (rule : Rule) : Prop :=
  ∃ now, store.Holds now ∧ now.id = rule.id ∧ rule.stamp ≤ now.stamp

/-- The rule is not active any more in the form that was read, or in an earlier one. -/
def Cleared (store : MemoryStore) (rule : Rule) : Prop :=
  rule.stamp ≤ store.writeCount ∧
    ∀ now, store.Holds now → now.id = rule.id → now.isActive = true → rule.stamp < now.stamp

/-- The rule was activated, and its active siblings have not fallen back since. -/
def Activated (types : List DeviceType) (store : MemoryStore) (rule : Rule) : Prop :=
  rule.stamp ≤ store.writeCount ∧ store.Reaches types rule rule.stamp

/-- No other active sibling is older than the rule. -/
def Settled (types : List DeviceType) (store : MemoryStore) (rule : Rule) : Prop :=
  rule.stamp ≤ store.writeCount ∧
    ∀ other, store.Holds other → other.isActive = true → rule.Siblings types other → other.id ≠ rule.id →
      rule.stamp ≤ other.stamp

/-- The active rules of a kind under some aliases. -/
def activeRules (store : MemoryStore) (aliases : AliasSet) (kind : String) : List Rule :=
  store.listRules (RuleQuery.ofAliases aliases kind).onlyActive

variable {types : List DeviceType} {store after : MemoryStore} {rule : Rule} {aliases : AliasSet} {kind : String}

/-- What is retained stays retained. -/
theorem Retains.later (h : store.Retains rule) (hsound : store.Sound types) (hlater : store.Later types after) :
    after.Retains rule := by
  obtain ⟨old, hold, hid, hle⟩ := h
  obtain ⟨new, hnew, hsame, hstamp⟩ := hlater.evolves old hold
  have hcount := hsound.consistent.stamp_le old hold
  refine ⟨new, hnew, hsame.id_eq.trans hid, ?_⟩
  rcases hstamp with rfl | hlt
  · exact hle
  · omega

/-- What is cleared stays cleared. -/
theorem Cleared.later (h : store.Cleared rule) (hlater : store.Later types after) : after.Cleared rule := by
  obtain ⟨hle, hcleared⟩ := h
  have hcount := hlater.writeCount_le
  constructor
  · omega
  · intro now hnow hid hactive
    by_cases hold : now.stamp ≤ store.writeCount
    · exact hcleared now (hlater.unwritten now hnow hold) hid hactive
    · omega

/-- What was activated was activated. -/
theorem Activated.later (h : store.Activated types rule) (hlater : store.Later types after) :
    after.Activated types rule := by
  obtain ⟨hle, hreaches⟩ := h
  exact ⟨Nat.le_trans hle hlater.writeCount_le, hlater.reaches _ _ hreaches⟩

/-- What is settled stays settled. -/
theorem Settled.later (h : store.Settled types rule) (hlater : store.Later types after) :
    after.Settled types rule := by
  obtain ⟨hle, hsettled⟩ := h
  have hcount := hlater.writeCount_le
  constructor
  · omega
  · intro other hother hactive hsiblings hid
    by_cases hold : other.stamp ≤ store.writeCount
    · exact hsettled other (hlater.unwritten other hother hold) hactive hsiblings hid
    · omega

/-- The active rules are those that the store holds, with the kind and one of the aliases. -/
theorem Keyed.mem_activeRules_iff (h : store.Keyed) :
    rule ∈ store.activeRules aliases kind ↔
      store.Holds rule ∧ rule.isActive = true ∧ rule.kind = kind ∧ aliases.contains rule.typeAlias = true := by
  rw [activeRules, h.mem_listRules_iff]
  simp [RuleQuery.accepts, RuleQuery.ofAliases, RuleQuery.onlyActive, and_assoc]

/-- Making a rule inactive that was read before succeeds, activates nothing and clears what was read. -/
theorem Sound.serve_clears (h : store.Sound types)
    (hroom : store.HasRoomFor (.setRuleActiveIf rule.id false rule.revision)) (hread : store.Retains rule) :
    (∃ answer, (store.serve (.setRuleActiveIf rule.id false rule.revision)).1 = .ok answer) ∧
      StoreProgram.activation _ (store.serve (.setRuleActiveIf rule.id false rule.revision)).1 = [] ∧
      (store.serve (.setRuleActiveIf rule.id false rule.revision)).2.Cleared rule := by
  obtain ⟨now, hnow, hid, hle⟩ := hread
  have hcount := h.consistent.stamp_le now hnow
  have hstored : store.rule? rule.id = some now := by rw [← hid]; exact hnow
  by_cases hrevision : now.revision = rule.revision
  · obtain ⟨heq, hfollows⟩ := h.consistent.keyed.follows_updateRule false hstored
    unfold HasRoomFor at hroom
    rw [← hrevision, serve_setRuleActiveIf_of_eq false hstored] at hroom ⊢
    refine ⟨⟨_, rfl⟩, by rw [heq]; rfl, by omega, ?_⟩
    intro later hlater hlaterId hactive
    rcases hfollows.holds_iff.1 hlater with rfl | ⟨hne, _⟩
    · cases hactive
    · exact absurd (hlaterId.trans hid.symm) hne
  · rw [serve_setRuleActiveIf_of_ne false hstored hrevision]
    refine ⟨⟨none, rfl⟩, rfl, Nat.le_trans hle hcount, ?_⟩
    intro later hlater hlaterId _
    rw [hlater.eq_of_id_eq hnow (hlaterId.trans hid.symm)]
    have hne : now.stamp ≠ rule.stamp := fun heq => hrevision (UInt64.toNat_inj.1 heq)
    omega

/-- Operations may make inactive what settling makes inactive. -/
theorem Sound.permits_of_mem_losers (h : store.Sound types)
    (hclass : ∀ name, Text.isAllBlank name = false → aliases.contains name = true →
      DeviceType.aliasClass types name = DeviceType.aliasClass types rule.typeAlias)
    {loser : Rule} (hloser : loser ∈ Rule.losers (store.activeRules aliases rule.kind)) :
    store.Permits types (.setRuleActiveIf loser.id false loser.revision) := by
  have hlisted := Rule.mem_of_mem_losers hloser
  obtain ⟨winner, hwinner, hlatest, hlosers⟩ := Rule.exists_winner hlisted
  have hle := hlatest loser hlisted
  have hne : loser.id ≠ winner.id := by
    rw [hlosers] at hloser
    simpa using (List.mem_filter.1 hloser).2
  obtain ⟨hheld, _, hkind, hname⟩ := h.consistent.keyed.mem_activeRules_iff.1 hlisted
  obtain ⟨hwinnerHeld, hwinnerActive, hwinnerKind, hwinnerName⟩ := h.consistent.keyed.mem_activeRules_iff.1 hwinner
  have hstamp : loser.stamp ≠ winner.stamp := fun heq =>
    hne (congrArg Rule.id (h.consistent.stamp_injective loser winner hheld hwinnerHeld heq))
  refine ⟨rfl, h.consistent.stamp_le loser hheld, ?_⟩
  intro read hread hid hrevision
  rw [hread.eq_of_id_eq hheld hid]
  refine ⟨winner, hwinnerHeld, hwinnerActive, ⟨hwinnerKind.trans hkind.symm, ?_⟩, by omega⟩
  rw [hclass _ (h.named winner hwinnerHeld) hwinnerName, hclass _ (h.named loser hheld) hname]

/-- Once all losers of a listing are cleared, the rules that were activated before the listing are settled. -/
theorem Sound.settled_of_cleared (h : store.Sound types) (hactivated : store.Activated types rule) {target : Rule}
    (hsiblings : target.Siblings types rule) (hlater : store.Later types after)
    (hcleared : ∀ loser ∈ Rule.losers (store.activeRules (DeviceType.aliasClass types target.typeAlias) target.kind),
      after.Cleared loser) : after.Settled types rule := by
  have hlisted : ∀ other, store.Holds other → other.isActive = true → rule.Siblings types other →
      other ∈ store.activeRules (DeviceType.aliasClass types target.typeAlias) target.kind := by
    intro other hother hactive hsib
    obtain ⟨hkind, hclass⟩ := hsiblings.trans hsib
    refine h.consistent.keyed.mem_activeRules_iff.2 ⟨hother, hactive, hkind, ?_⟩
    rw [← hclass]
    exact DeviceType.contains_aliasClass_self types other.typeAlias
  obtain ⟨hle, reached, hreached, hreachedActive, hreachedSib, hreachedStamp⟩ := hactivated
  have hcount := hlater.writeCount_le
  constructor
  · omega
  · intro other hother hactive hsib hid
    by_contra hlt
    -- An older active sibling was there at the listing, and some active sibling was later than it.
    have hheld := hlater.unwritten other hother (by omega)
    have hmem := hlisted other hheld hactive hsib
    obtain ⟨winner, hwinner, hlatest, hlosers⟩ := Rule.exists_winner hmem
    have hwinnerStamp := hlatest reached (hlisted reached hreached hreachedActive hreachedSib)
    have hne : other.id ≠ winner.id := by
      intro heq
      have hwinnerHeld := (h.consistent.keyed.mem_activeRules_iff.1 hwinner).1
      rw [hheld.eq_of_id_eq hwinnerHeld heq] at hlt
      omega
    have hloser : other ∈
        Rule.losers (store.activeRules (DeviceType.aliasClass types target.typeAlias) target.kind) := by
      rw [hlosers]
      exact List.mem_filter.2 ⟨hmem, by simpa using hne⟩
    have hcontra := (hcleared other hloser).2 other hother rfl hactive
    omega

end MemoryStore

namespace Catalog

open StoreProgram

variable {types : List DeviceType} {faults : Bool} {made : List Rule} {store : MemoryStore}

/-- How a part of an operation ends that activates nothing: unless a call has failed, it has succeeded and left the
store as it should. -/
def Achieves (faults : Bool) (made : List Rule) (goal : MemoryStore → Prop) (result : Except PricingError Unit)
    (made' : List Rule) (store : MemoryStore) : Prop :=
  made' = made ∧ (faults = false → result = .ok () ∧ goal store)

/-- After a failed call there is nothing to achieve. -/
theorem achieves_of_faults {goal : MemoryStore → Prop} (hfaults : faults = true) (result : Except PricingError Unit) :
    Achieves faults made goal result made store := by
  constructor
  · rfl
  · intro hnone
    rw [hfaults] at hnone
    cases hnone

/-- Making rules inactive that were read before clears them all, unless a call fails. -/
theorem deactivate_meets {losers : List Rule} (hsound : store.Sound types)
    (hlosers : ∀ loser ∈ losers, store.Permits types (.setRuleActiveIf loser.id false loser.revision) ∧
      store.Retains loser) :
    Meets types faults (Achieves faults made fun last => ∀ loser ∈ losers, last.Cleared loser)
      (deactivate losers).run made store := by
  induction losers generalizing store with
  | nil => exact ⟨rfl, fun _ => ⟨rfl, by simp⟩⟩
  | cons loser losers ih =>
    obtain ⟨⟨hpermits, hread⟩, hrest⟩ := List.forall_mem_cons.1 hlosers
    refine CatalogProgram.meets_bind (CatalogProgram.meets_demand hpermits ?_ ?_)
    · intro hfaults error
      exact achieves_of_faults hfaults _
    · intro now hlater hroom
      have hafter := hlater.trans (hlater.sound.later_serve (hpermits.later hlater) hroom)
      obtain ⟨⟨answer, hanswer⟩, hnone, hcleared⟩ :=
        hlater.sound.serve_clears hroom (hread.later hsound hlater)
      rw [hnone]
      simp only [hanswer, Except.mapError, List.nil_append]
      have hdone := ih hafter.sound fun other hother =>
        ⟨(hrest other hother).1.later hafter, (hrest other hother).2.later hsound hafter⟩
      refine (hdone.frame (fun a b => MemoryStore.Cleared.later) hcleared).weaken ?_
      rintro result made' last ⟨⟨hmade, hends⟩, hfirst⟩
      constructor
      · exact hmade
      · intro hfaults
        obtain ⟨hresult, hothers⟩ := hends hfaults
        exact ⟨hresult, List.forall_mem_cons.2 ⟨hfirst, hothers⟩⟩

/-- Settling the siblings of the activations that an operation has made leaves them settled, unless a call fails.
Aliases that stand for a part of the class are enough to stay within what is permitted. -/
theorem settle_meets {aliases : AliasSet} {target : Rule}
    (hnames : ∀ name, Text.isAllBlank name = false → aliases.contains name = true →
      DeviceType.aliasClass types name = DeviceType.aliasClass types target.typeAlias)
    (hclass : faults = false → aliases = DeviceType.aliasClass types target.typeAlias)
    (hmade : ∀ rule ∈ made, target.Siblings types rule ∧ store.Activated types rule) :
    Meets types faults (Achieves faults made fun last => ∀ rule ∈ made, last.Settled types rule)
      (settle aliases target.kind).run made store := by
  refine CatalogProgram.meets_bind (CatalogProgram.meets_demand trivial ?_ ?_)
  · intro hfaults error
    exact achieves_of_faults hfaults _
  · intro now hlater _
    change Meets types faults _ (deactivate (Rule.losers (now.activeRules aliases target.kind))).run made now
    refine Meets.weaken (Meets.frame (fun a b => MemoryStore.Later.trans)
      (deactivate_meets hlater.sound fun loser hloser => ?_) hlater.sound.later_self) ?_
    · refine ⟨hlater.sound.permits_of_mem_losers hnames hloser, loser, ?_, rfl, Nat.le_refl _⟩
      exact (hlater.sound.consistent.keyed.mem_activeRules_iff.1 (Rule.mem_of_mem_losers hloser)).1
    rintro result made' last ⟨⟨hsame, hends⟩, hlast⟩
    constructor
    · exact hsame
    · intro hfaults
      obtain ⟨hresult, hcleared⟩ := hends hfaults
      rw [hclass hfaults] at hcleared
      have hsettled : ∀ rule ∈ made, last.Settled types rule := by
        intro rule hrule
        obtain ⟨hsiblings, hactivated⟩ := hmade rule hrule
        exact hlater.sound.settled_of_cleared (hactivated.later hlater) hsiblings hlast hcleared
      exact ⟨hresult, hsettled⟩

/-- The siblings of the activations that an operation has made are settled under the aliases of a rule, unless a
call fails. Where the device type cannot be looked up, the alias of the rule stands for its class. -/
theorem settleSiblings_meets {target : Rule} (htypes : DeviceType.Unambiguous types)
    (hname : Text.isAllBlank target.typeAlias = false)
    (hmade : ∀ rule ∈ made, target.Siblings types rule ∧ store.Activated types rule) :
    Meets types faults (Achieves faults made fun last => ∀ rule ∈ made, last.Settled types rule)
      (settleSiblings target).run made store := by
  refine ⟨trivial, ?_, ?_⟩
  · intro hfaults error
    refine settle_meets ?_ ?_ hmade
    · intro name _ hcontains
      rw [(AliasSet.contains_single _ _).1 hcontains]
    · intro hnone
      rw [hfaults] at hnone
      cases hnone
  · intro now hlater _
    have hlookup : aliasesOf target.typeAlias (now.serve (.findDeviceType target.typeAlias)).1 =
        DeviceType.aliasClass types target.typeAlias := by
      rw [DeviceType.aliasClass, ← hlater.sound.deviceTypes_eq]
      rfl
    change Meets types faults _
      (settle (aliasesOf target.typeAlias (now.serve (.findDeviceType target.typeAlias)).1) target.kind).run made now
    rw [hlookup]
    refine settle_meets ?_ (fun _ => rfl) ?_
    · intro name hblank hcontains
      exact DeviceType.aliasClass_eq_of_contains htypes hname hblank hcontains
    · intro rule hrule
      obtain ⟨hsiblings, hactivated⟩ := hmade rule hrule
      exact ⟨hsiblings, hactivated.later hlater⟩

/-- Looking for a rule activates none and gives the rule under its id. -/
theorem rule_meets (hsound : store.Sound types) (id : Int64) :
    Meets types faults (fun result made' last => made' = made ∧ store.Later types last ∧
      ∀ target, result = .ok target → last.Holds target) (rule id).run made store := by
  refine CatalogProgram.meets_bind (CatalogProgram.meets_demand trivial ?_ ?_)
  · intro _ error
    exact ⟨rfl, hsound.later_self, by rintro target ⟨⟩⟩
  · intro now hlater _
    have hserved : now.serve (.findRule id) = (.ok (now.rule? id), now) := rfl
    rw [hserved]
    cases hfound : now.rule? id with
    | none => exact ⟨rfl, hlater, by rintro target ⟨⟩⟩
    | some found =>
      refine ⟨rfl, hlater, ?_⟩
      rintro target ⟨⟩
      exact hlater.sound.consistent.keyed.holds_of_rule? hfound

/-- The rule that a call has activated is written and activated. -/
theorem writes_and_activated_of_mem_activation {request : StoreCall} (hsound : store.Sound types) {rule : Rule}
    (hrule : rule ∈ activation request (store.serve request).1) :
    store.Writes request rule ∧ (store.serve request).2.Activated types rule := by
  obtain ⟨hwritten, hactive⟩ : request.written? (store.serve request).1 = some rule ∧ rule.isActive = true := by
    simpa [activation, Option.filter_eq_some_iff] using hrule
  rcases hsound.consistent.keyed.serve_cases request with ⟨written, hsome, hwrites, hfollows⟩ | ⟨hnone, _⟩
  · have heq : written = rule := Option.some.inj (hsome.symm.trans hwritten)
    subst heq
    refine ⟨hwrites, Nat.le_of_eq hfollows.stamp_eq_writeCount, ?_⟩
    exact ⟨written, hfollows.holds, hactive, .refl types written, Nat.le_refl _⟩
  · rw [hnone] at hwritten
    cases hwritten

/-- How an operation ends: without faults, all activations that it has made are settled. -/
def Accounts (types : List DeviceType) (faults : Bool) (_ : Except PricingError Rule) (made : List Rule)
    (store : MemoryStore) : Prop :=
  faults = false → ∀ rule ∈ made, store.Settled types rule

/-- Without activations there is nothing to account for. -/
theorem accounts_nil (result : Except PricingError Rule) (store : MemoryStore) :
    Accounts types faults result [] store := by
  intro _ rule hrule
  cases hrule

/-- What an operation accounts for stays accounted for. -/
theorem Accounts.later {result : Except PricingError Rule} {after : MemoryStore}
    (h : Accounts types faults result made store) (hlater : store.Later types after) :
    Accounts types faults result made after :=
  fun hfaults rule hrule => (h hfaults rule hrule).later hlater

/-- Fewer activations are accounted for as well. -/
theorem Accounts.fewer {result : Except PricingError Rule} {part : List Rule} (hsub : part ⊆ made)
    (h : Accounts types faults result made store) : Accounts types faults result part store :=
  fun hfaults rule hrule => h hfaults rule (hsub hrule)

/-- What is accepted of a draft: its alias and its kind without the blanks around them, and all else as it is. -/
theorem eq_of_accept {draft : RuleDraft} {new : NewRule} (h : draft.accept = .ok new) :
    Text.isAllBlank draft.typeAlias = false ∧
      new = ⟨Text.trim draft.typeAlias, Text.trim draft.kind, draft.version.getD 1, draft.isActive.getD false,
        draft.body⟩ := by
  cases hblank : Text.isAllBlank draft.typeAlias with
  | true => simp [RuleDraft.accept, hblank] at h
  | false =>
    simp only [RuleDraft.accept, hblank] at h
    repeat' split at h
    all_goals cases h
    exact ⟨rfl, rfl⟩

/-- An accepted draft has a name. -/
theorem named_of_accept {draft : RuleDraft} {new : NewRule} (h : draft.accept = .ok new) :
    Text.isAllBlank new.typeAlias = false := by
  obtain ⟨hnamed, rfl⟩ := eq_of_accept h
  exact Text.isAllBlank_trim hnamed

/-- Creating a rule settles the activation that it is, if the rule is active. -/
theorem createRule_meets (htypes : DeviceType.Unambiguous types) (store : MemoryStore) (id createdAt : Int64)
    (draft : RuleDraft) :
    Meets types faults (Accounts types faults) (createRule id createdAt draft).run [] store := by
  unfold createRule
  refine CatalogProgram.meets_bind ?_
  cases hnew : draft.accept with
  | error error => exact accounts_nil (.error error) store
  | ok new =>
    have hname := named_of_accept hnew
    refine CatalogProgram.meets_bind (CatalogProgram.meets_demand hname (fun _ error => accounts_nil _ _) ?_)
    intro now hlater hroom
    have hmade : ∀ rule ∈ activation _ (now.serve (.insertRule (new.stamped id createdAt))).1, _ :=
      fun rule => writes_and_activated_of_mem_activation hlater.sound
    cases hresult : (now.serve (.insertRule (new.stamped id createdAt))).1 with
    | error error => exact accounts_nil _ _
    | ok created =>
      rw [hresult] at hmade
      simp only [Except.mapError]
      by_cases hactive : created.isActive = true
      · have hcreated : created ∈ activation (.insertRule (new.stamped id createdAt)) (.ok created) := by
          simp [activation, StoreCall.written?, hactive]
        have hnamed : Text.isAllBlank created.typeAlias = false := by
          cases (hmade created hcreated).1
          exact hname
        rw [if_pos hactive, List.append_nil]
        refine CatalogProgram.meets_bind ((settleSiblings_meets htypes hnamed fun rule hrule => ?_).weaken ?_)
        · obtain ⟨_, hactivated⟩ := hmade rule hrule
          obtain ⟨rfl, _⟩ : created = rule ∧ rule.isActive = true := by
            simpa [activation, StoreCall.written?, hactive] using hrule
          exact ⟨.refl types created, hactivated⟩
        · rintro (error | ⟨⟩) made last ⟨rfl, hends⟩
          · exact fun hfaults => (hends hfaults).2
          · exact fun hfaults => (hends hfaults).2
      · have hempty : activation (.insertRule (new.stamped id createdAt)) (.ok created) = [] := by
          simp [activation, StoreCall.written?, hactive]
        rw [if_neg hactive, hempty]
        exact accounts_nil _ _

/-- Activating a rule settles the activation. -/
theorem activateRule_meets (htypes : DeviceType.Unambiguous types) (hsound : store.Sound types) (id : Int64) :
    Meets types faults (Accounts types faults) (activateRule id).run [] store := by
  refine CatalogProgram.meets_bind ((rule_meets hsound id).weaken ?_)
  rintro (error | target) made before ⟨rfl, hbefore, hheld⟩
  · exact accounts_nil _ _
  have hheld := hheld target rfl
  refine CatalogProgram.meets_bind (CatalogProgram.meets_demand rfl (fun _ error => accounts_nil _ _) ?_)
  intro now hlater hroom
  have hpermits : now.Permits types (.setRuleActive target.id true) := rfl
  have hafter := hlater.sound.later_serve hpermits hroom
  have hmade : ∀ rule ∈ activation _ (now.serve (.setRuleActive target.id true)).1,
      target.Siblings types rule ∧ (now.serve (.setRuleActive target.id true)).2.Activated types rule := by
    intro rule hrule
    obtain ⟨hwrites, hactivated⟩ := writes_and_activated_of_mem_activation hlater.sound hrule
    refine ⟨?_, hactivated⟩
    obtain ⟨stored, hstored, hsame, _⟩ := hlater.evolves target hheld
    cases hwrites with
    | @set id old active hold =>
      have heq : old = stored := by
        rw [MemoryStore.Holds, hsame.id_eq] at hstored
        exact Option.some.inj (hold.symm.trans hstored)
      subst heq
      exact (hsame.siblings types).trans ((Rule.sameRecord_rewritten _ _ _).siblings types)
  cases hresult : (now.serve (.setRuleActive target.id true)).1 with
  | error error => exact accounts_nil _ _
  | ok written =>
    rw [hresult] at hmade
    rw [List.append_nil]
    have hname := hbefore.sound.named target hheld
    have hsettle : Meets types faults _ (settleSiblings target).run _ _ :=
      settleSiblings_meets htypes hname hmade
    refine CatalogProgram.meets_bind
      ((hsettle.frame (fun a b => MemoryStore.Later.trans) hafter.sound.later_self).weaken ?_)
    rintro (error | ⟨⟩) made last ⟨⟨rfl, hends⟩, hlast⟩
    · exact fun hfaults => (hends hfaults).2
    · have haccounts : Accounts types faults (.ok target) _ last := fun hfaults => (hends hfaults).2
      refine ((rule_meets hlast.sound id).frame (fun _ _ => Accounts.later) haccounts).weaken ?_
      rintro result made' final ⟨⟨rfl, _⟩, hkept⟩
      exact hkept

/-- Operations make permitted calls alone, and settle what they activate unless a call fails. -/
theorem Operation.meets (htypes : DeviceType.Unambiguous types) (hsound : store.Sound types)
    (operation : Operation) :
    operation.program.Meets types faults (Accounts types faults) [] store := by
  cases operation with
  | create id createdAt draft => exact createRule_meets htypes store id createdAt draft
  | activate id => exact activateRule_meets htypes hsound id

end Catalog

end TradeIn
