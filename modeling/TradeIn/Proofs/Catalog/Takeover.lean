import TradeIn.Proofs.Catalog.Effect
import TradeIn.Proofs.Catalog.InEffect

/-!
# Taking over

An activation that has a working store to itself does all of its work and nothing else: its rule takes over from the
active siblings (`Catalog.TakesOver`), every other rule stays just as it is, and no rule comes or goes. What it writes
goes the way of every write, though: tables keep the body that comes back from text, which need not be the body that was
read before.
-/

namespace TradeIn

namespace Rule

/-- The rule after a write that sets its activity, where bodies are kept as `keep` says. -/
def keptAs (keep : Json → Json) (active : Bool) (revision : UInt64) (rule : Rule) : Rule :=
  { rule with isActive := active, body := keep rule.body, revision }

end Rule

namespace MemoryStore

variable {view after last : MemoryStore} {keep : Json → Json} {ids : List Int64} {rule : Rule} {revision : UInt64}

/-- The rules under some ids were made inactive one after the other, with new stamps; all others are as they were. -/
structure Retires (keep : Json → Json) (ids : List Int64) (view after : MemoryStore) : Prop where
  rule?_eq : ∃ stamp : Int64 → UInt64, ∀ id, after.rule? id =
    if id ∈ ids then (view.rule? id).map (Rule.keptAs keep false (stamp id)) else view.rule? id
  deviceTypes_eq : after.deviceTypes = view.deviceTypes

/-- Without ids nothing has changed. -/
theorem retires_nil (keep : Json → Json) (view : MemoryStore) : Retires keep [] view view :=
  ⟨⟨fun _ => 0, by simp⟩, rfl⟩

/-- A rule is made inactive before the others. -/
theorem Retires.cons (hrest : Retires keep ids after last) (hfound : view.rule? rule.id = some rule)
    (hfollows : view.Follows (rule.keptAs keep false revision) after) (hnew : rule.id ∉ ids) :
    Retires keep (rule.id :: ids) view last := by
  obtain ⟨⟨stamp, hrules⟩, htypes⟩ := hrest
  refine ⟨⟨fun id => if id = rule.id then revision else stamp id, fun id => ?_⟩,
    htypes.trans hfollows.deviceTypes_eq⟩
  have hid : (rule.keptAs keep false revision).id = rule.id := rfl
  rw [hrules, hfollows.rule?_eq, hid]
  by_cases heq : id = rule.id
  · subst heq
    simp [hnew, hfound]
  · by_cases hmem : id ∈ ids <;> simp [heq, hmem]

/-- A rule under one of the ids is held with its new stamp. -/
theorem Retires.holds_of_mem (h : Retires keep ids view after) (hrule : view.Holds rule) (hmem : rule.id ∈ ids) :
    ∃ revision, after.Holds (rule.keptAs keep false revision) := by
  obtain ⟨⟨stamp, hrules⟩, -⟩ := h
  refine ⟨stamp rule.id, ?_⟩
  have hafter := hrules rule.id
  rw [if_pos hmem, show view.rule? rule.id = some rule from hrule] at hafter
  exact hafter

/-- A rule under another id is held as it was. -/
theorem Retires.holds_of_not_mem (h : Retires keep ids view after) (hspared : rule.id ∉ ids) :
    after.Holds rule ↔ view.Holds rule := by
  obtain ⟨⟨stamp, hrules⟩, -⟩ := h
  rw [Holds, hrules, if_neg hspared, Holds]

/-- No id is new. -/
theorem Retires.exists_before (h : Retires keep ids view after) (hview : view.Keyed) (hrule : after.Holds rule) :
    ∃ before, view.Holds before ∧ before.id = rule.id ∧ (rule.id ∈ ids → rule.isActive = false) := by
  obtain ⟨⟨stamp, hrules⟩, -⟩ := h
  have hafter := hrules rule.id
  rw [show after.rule? rule.id = some rule from hrule] at hafter
  split at hafter
  · obtain ⟨before, hbefore, heq⟩ := Option.map_eq_some_iff.1 hafter.symm
    have hid : (before.keptAs keep false (stamp rule.id)).id = rule.id := by rw [heq]
    have hinactive : (before.keptAs keep false (stamp rule.id)).isActive = rule.isActive := by rw [heq]
    exact ⟨before, hview.holds_of_rule? hbefore, hid, fun _ => hinactive.symm⟩
  · next hspared => exact ⟨rule, hafter.symm, rfl, fun hmem => absurd hmem hspared⟩

end MemoryStore

namespace Backend

variable {backend : Backend} {view : MemoryStore} {request : StoreCall} {rule : Rule}

/-- A call that writes a rule is answered as by the store that is shown, and leaves a backend that shows the rule with
its body as it is kept, if the body of a new rule can be read again. -/
theorem Shows.exists_of_written (h : backend.Shows view) (hplaces : view.deviceTypes.length < 2 ^ 64)
    {result : request.Result} {answered : MemoryStore} (hserved : view.serve request = (result, answered))
    (hwritten : request.written? result = some rule)
    (hinserted : ∀ body ∈ request.inserted? result, backend.Rereads body) :
    ∃ made after, backend.serve request = (result, made) ∧ made.Shows after ∧ made.kept = backend.kept ∧
      view.Follows { rule with body := backend.kept rule.body } after := by
  have hrequest : ∀ deviceType, request ≠ .insertDeviceType deviceType := by
    rintro deviceType rfl
    cases hwritten
  obtain ⟨hanswer, hleft⟩ := h.serve request
  rw [hserved] at hanswer
  obtain ⟨after, hshows, hleaves⟩ := hleft (by rwa [view.deviceTypes_serve hrequest]) (hanswer ▸ hinserted)
  refine ⟨_, after, Prod.ext hanswer rfl, hshows, kept_serve request backend, ?_⟩
  cases hleaves with
  | written hsome hwrites hfollows =>
    rw [hserved] at hsome
    obtain rfl := Option.some.inj (hwritten.symm.trans hsome)
    exact hfollows
  | unwritten hnone =>
    rw [hserved] at hnone
    cases hwritten.symm.trans hnone

end Backend

namespace Catalog

open CatalogProgram

variable {α β : Type} {backend made : Backend} {view after : MemoryStore} {rule target : Rule}

/-- An operation goes on with a result. -/
theorem onBackend_bind_of_ok {program : CatalogProgram β} {next : β → CatalogProgram α} {value : β}
    (h : program.onBackend backend = (.ok value, made)) :
    (program >>= next).onBackend backend = (next value).onBackend made := run_bind_of_ok h

/-- A call that is answered gives its answer. -/
theorem onBackend_demand {request : StoreCall} {answer : request.Answer}
    (h : backend.serve request = (.ok answer, made)) : (demand request).onBackend backend = (.ok answer, made) := by
  change ((backend.serve request).1.mapError PricingError.ofStore, (backend.serve request).2) = _
  rw [h]
  rfl

/-- A program that cannot fail gives its result. -/
theorem onBackend_ofProgram {program : StoreProgram α} {value : α}
    (h : program.run Backend.serve backend = (value, made)) :
    (ofProgram program).onBackend backend = (.ok value, made) := by
  have hrun : (ofProgram program).run = program.andThen fun value => .done (.ok value) := rfl
  rw [onBackend, hrun, StoreProgram.run_andThen, h]
  rfl

/-- A result that is there is given. -/
theorem onBackend_ofExcept {result given : Except PricingError α} (h : result = given) :
    (ofExcept result).onBackend backend = (given, backend) := by
  rw [h]
  rfl

/-- A reference is resolved by the device types that are shown. -/
theorem run_resolve (h : backend.Shows view) (reference : String) :
    (resolve reference).run Backend.serve backend =
      (DeviceType.aliasClass view.deviceTypes reference, backend) := by
  change (aliasesOf reference (backend.serve (.findDeviceType reference)).1, _) = _
  rw [h.serve_findDeviceType]
  rfl

/-- Losers that are stored as they were read are made inactive. -/
theorem exists_onBackend_deactivate {losers : List Rule} (h : backend.Shows view)
    (hplaces : view.deviceTypes.length < 2 ^ 64) (hheld : ∀ loser ∈ losers, view.Holds loser)
    (hids : (losers.map Rule.id).Nodup) :
    ∃ made after, (deactivate losers).onBackend backend = (.ok (), made) ∧ made.Shows after ∧
      made.kept = backend.kept ∧ MemoryStore.Retires backend.kept (losers.map Rule.id) view after := by
  induction losers generalizing backend view with
  | nil => exact ⟨backend, view, rfl, h, rfl, MemoryStore.retires_nil _ view⟩
  | cons loser losers ih =>
    obtain ⟨hloser, hothers⟩ := List.forall_mem_cons.1 hheld
    obtain ⟨hnew, hids⟩ := List.nodup_cons.1 hids
    obtain ⟨made, after, hmade, hshows, hkept, hfollows⟩ :=
      h.exists_of_written hplaces (MemoryStore.serve_setRuleActiveIf_of_eq false hloser) rfl (by simp [StoreCall.inserted?])
    have hplacesAfter : after.deviceTypes.length < 2 ^ 64 := by rwa [hfollows.deviceTypes_eq]
    -- The other losers are still stored as they were read.
    have hstill : ∀ other ∈ losers, after.Holds other := by
      intro other hother
      have hne : other.id ≠ loser.id := fun heq => hnew (heq ▸ List.mem_map_of_mem hother)
      exact hfollows.holds_iff.2 (.inr ⟨hne, hothers other hother⟩)
    obtain ⟨last, final, hrest, hfinal, hkeptLast, hretires⟩ := ih hshows hplacesAfter hstill hids
    rw [hkept] at hretires
    exact ⟨last, final, (onBackend_bind_of_ok (onBackend_demand hmade)).trans hrest, hfinal, hkeptLast.trans hkept,
      hretires.cons hloser hfollows hnew⟩

/-- Settling the siblings of a rule makes the losers among them inactive. -/
theorem exists_onBackend_settleSiblings (h : backend.Shows view) (hplaces : view.deviceTypes.length < 2 ^ 64)
    (rule : Rule) :
    ∃ made after, (settleSiblings rule).onBackend backend = (.ok (), made) ∧ made.Shows after ∧
      made.kept = backend.kept ∧
      MemoryStore.Retires backend.kept ((view.losersBeside rule).map Rule.id) view after := by
  generalize haliases : DeviceType.aliasClass view.deviceTypes rule.typeAlias = aliases
  have hsublist := Rule.losers_sublist (view.activeRules aliases rule.kind)
  have hheld : ∀ loser ∈ Rule.losers (view.activeRules aliases rule.kind), view.Holds loser := fun loser hloser =>
    (h.keyed.mem_activeRules_iff.1 (hsublist.subset hloser)).1
  have hids : ((Rule.losers (view.activeRules aliases rule.kind)).map Rule.id).Nodup :=
    (hsublist.map Rule.id).nodup (h.keyed.nodup_ids_listRules _)
  obtain ⟨made, after, hmade, hshows, hkept, hretires⟩ := exists_onBackend_deactivate h hplaces hheld hids
  have hresolved := onBackend_ofProgram (run_resolve h rule.typeAlias)
  rw [haliases] at hresolved
  have hlisted := onBackend_demand (h.serve_listRules (RuleQuery.ofAliases aliases rule.kind).onlyActive)
  have hsettled : (settleSiblings rule).onBackend backend = (.ok (), made) := by
    unfold settleSiblings
    refine (onBackend_bind_of_ok hresolved).trans ?_
    exact (onBackend_bind_of_ok hlisted).trans hmade
  subst haliases
  exact ⟨made, after, hsettled, hshows, hkept, hretires⟩

/-- The rule in effect for a reference is the one for the names that it stands for. -/
theorem onBackend_ruleInEffect (h : backend.Shows view) (typeAlias kind : String) :
    (ruleInEffect typeAlias kind).onBackend backend =
      (match Rule.inEffect? (view.listRules (.ofAliases (DeviceType.aliasClass view.deviceTypes typeAlias) kind)) with
        | some rule => .ok rule
        | none => .error (.noRule typeAlias kind), backend) := by
  unfold ruleInEffect
  refine (onBackend_bind_of_ok (onBackend_ofProgram (run_resolve h typeAlias))).trans ?_
  generalize DeviceType.aliasClass view.deviceTypes typeAlias = aliases
  refine (onBackend_bind_of_ok (onBackend_ruleInEffect? h aliases kind)).trans ?_
  cases Rule.inEffect? (view.listRules (.ofAliases aliases kind)) <;> rfl

/-- The names that a reference stands for on a backend. -/
def resolvedOn (backend : Backend) (reference : String) : AliasSet :=
  ((resolve reference).run Backend.serve backend).1

/-- A rule is an active sibling of another one: a different rule of its kind under the names that its alias stands
for. -/
def IsActiveBeside (backend : Backend) (target rule : Rule) : Prop :=
  rule.isActive = true ∧ rule.kind = target.kind ∧
    (resolvedOn backend target.typeAlias).contains rule.typeAlias = true ∧ rule.id ≠ target.id

/-- A rule has taken over from its active siblings, and all other rules are as they were. A rule that was written keeps
all but its activity, its revision and what the backend makes of its body. -/
structure TakesOver (before : Backend) (target stored : Rule) (after : Backend) : Prop where
  stored_eq : ∃ revision, stored = target.keptAs before.kept true revision
  stores : after.Stores stored
  inEffect : (ruleInEffect target.typeAlias target.kind).onBackend after = (.ok stored, after)
  /-- No sibling is active any more. -/
  inactive : ∀ rule, after.StoresUnder (resolvedOn before target.typeAlias) target.kind rule →
    rule.id ≠ target.id → rule.isActive = false
  retired : ∀ rule, before.Stores rule → IsActiveBeside before target rule →
    ∃ revision, after.Stores (rule.keptAs before.kept false revision)
  unchanged : ∀ rule, before.Stores rule → rule.id ≠ target.id → ¬IsActiveBeside before target rule →
    after.Stores rule
  /-- No rule is new but perhaps the one that takes over. -/
  exists_before : ∀ rule, after.Stores rule → rule.id ≠ target.id → ∃ other, before.Stores other ∧ other.id = rule.id

/-- An active rule is in effect for its own alias and kind if no other rule is active under the names of this alias. -/
theorem onBackend_ruleInEffect_of_inactive (h : backend.Shows view) (hrule : view.Holds rule)
    (hactive : rule.isActive = true)
    (hothers : ∀ other, view.Holds other → other.kind = rule.kind →
      (DeviceType.aliasClass view.deviceTypes rule.typeAlias).contains other.typeAlias = true → other.id ≠ rule.id →
      other.isActive = false) :
    (ruleInEffect rule.typeAlias rule.kind).onBackend backend = (.ok rule, backend) := by
  rw [onBackend_ruleInEffect h]
  have hself := DeviceType.contains_aliasClass_self view.deviceTypes rule.typeAlias
  generalize DeviceType.aliasClass view.deviceTypes rule.typeAlias = aliases at hothers hself ⊢
  have hlisted : rule ∈ view.listRules (.ofAliases aliases rule.kind) :=
    h.keyed.mem_listRules_iff.2 ⟨hrule, MemoryStore.accepts_ofAliases_iff.2 ⟨rfl, hself⟩⟩
  obtain ⟨winner, hwinner⟩ := Rule.exists_inEffect?_eq_some hlisted
  obtain ⟨hmem, hwinnerActive, -⟩ := Rule.stamp_le_of_inEffect? hactive hlisted hwinner
  obtain ⟨hheld, haccepts⟩ := h.keyed.mem_listRules_iff.1 hmem
  obtain ⟨hkind, halias⟩ := MemoryStore.accepts_ofAliases_iff.1 haccepts
  -- The rule that is found is active, so it is no other one.
  have hid : winner.id = rule.id := by
    by_contra hne
    rw [hothers winner hheld hkind halias hne] at hwinnerActive
    cases hwinnerActive
  rw [hwinner, hheld.eq_of_id_eq hrule hid]

section Settled

variable {before settled : Backend} {made last : MemoryStore} {revision : UInt64}

/-- The losers beside a rule that was written as active are its active siblings: no stamp is later than its own. -/
theorem mem_losersBeside_iff_isActiveBeside (h : before.Shows view) (hview : view.Consistent)
    (hroom : view.writeCount + 1 < 2 ^ 64) (hfollows : view.Follows (target.keptAs before.kept true revision) made)
    (hmade : made.Keyed) (hrule : made.Holds rule) :
    rule.id ∈ (made.losersBeside target).map Rule.id ↔ IsActiveBeside before target rule := by
  have hconsistent := hfollows.consistent hview hmade (hfollows.writeCount_le hroom)
  have hiff := hconsistent.mem_ids_losersBeside_iff hfollows.holds rfl hfollows.stamp_eq_writeCount hrule
  rw [IsActiveBeside, resolvedOn, run_resolve h, ← hfollows.deviceTypes_eq]
  exact hiff

/-- A rule that was written as active takes over when the losers beside it are made inactive. -/
theorem takesOver_of_retires (h : before.Shows view) (hview : view.Consistent) (hroom : view.writeCount + 1 < 2 ^ 64)
    (hfollows : view.Follows (target.keptAs before.kept true revision) made) (hmade : made.Keyed)
    (hretires : MemoryStore.Retires before.kept ((made.losersBeside target).map Rule.id) made last)
    (hsettled : settled.Shows last) : TakesOver before target (target.keptAs before.kept true revision) settled := by
  have hlosers : ∀ rule, made.Holds rule →
      (rule.id ∈ (made.losersBeside target).map Rule.id ↔ IsActiveBeside before target rule) := fun _ hrule =>
    mem_losersBeside_iff_isActiveBeside h hview hroom hfollows hmade hrule
  have hresolved : resolvedOn before target.typeAlias = DeviceType.aliasClass last.deviceTypes target.typeAlias := by
    rw [resolvedOn, run_resolve h, hretires.deviceTypes_eq, hfollows.deviceTypes_eq]
  have hmadeHolds : ∀ rule, before.Stores rule → rule.id ≠ target.id → made.Holds rule := fun rule hrule hne =>
    hfollows.holds_iff.2 (.inr ⟨hne, h.stores_iff.1 hrule⟩)
  have hstored : last.Holds (target.keptAs before.kept true revision) := by
    refine (hretires.holds_of_not_mem fun hmem => ?_).2 hfollows.holds
    exact ((hlosers _ hfollows.holds).1 hmem).2.2.2 rfl
  have hinactive : ∀ rule, last.Holds rule → rule.kind = target.kind →
      (resolvedOn before target.typeAlias).contains rule.typeAlias = true → rule.id ≠ target.id →
      rule.isActive = false := by
    intro rule hrule hkind halias hne
    by_cases hmem : rule.id ∈ (made.losersBeside target).map Rule.id
    · obtain ⟨-, -, -, hretired⟩ := hretires.exists_before hmade hrule
      exact hretired hmem
    · have hspared := (hretires.holds_of_not_mem hmem).1 hrule
      exact Bool.eq_false_iff.2 fun hactive => hmem ((hlosers rule hspared).2 ⟨hactive, hkind, halias, hne⟩)
  refine
    { stored_eq := ⟨revision, rfl⟩
      stores := hsettled.stores_iff.2 hstored
      inEffect := ?inEffect
      inactive := ?inactive
      retired := ?retired
      unchanged := ?unchanged
      exists_before := ?exists_before }
  case inEffect =>
    rw [hresolved] at hinactive
    exact onBackend_ruleInEffect_of_inactive hsettled hstored rfl hinactive
  case inactive =>
    rintro rule ⟨hrule, hkind, halias⟩ hne
    exact hinactive rule (hsettled.stores_iff.1 hrule) hkind halias hne
  case retired =>
    intro rule hrule hbeside
    have hheld := hmadeHolds rule hrule hbeside.2.2.2
    obtain ⟨revision, hretired⟩ := hretires.holds_of_mem hheld ((hlosers rule hheld).2 hbeside)
    exact ⟨revision, hsettled.stores_iff.2 hretired⟩
  case unchanged =>
    intro rule hrule hne hspared
    have hheld := hmadeHolds rule hrule hne
    exact hsettled.stores_iff.2 ((hretires.holds_of_not_mem fun hmem => hspared ((hlosers rule hheld).1 hmem)).2 hheld)
  case exists_before =>
    intro rule hrule hne
    obtain ⟨other, hother, hsame, -⟩ := hretires.exists_before hmade (hsettled.stores_iff.1 hrule)
    rcases hfollows.holds_iff.1 hother with rfl | ⟨-, hheld⟩
    · exact absurd hsame.symm hne
    · exact ⟨other, h.stores_iff.2 hheld, hsame⟩

end Settled

/-- A rule that is looked for is the one that is found under its id. -/
theorem onBackend_rule_of_serve {id : Int64} {found : Option Rule} :
    backend.serve (.findRule id) = (.ok found, backend) →
      (Catalog.rule id).onBackend backend =
        (match found with
          | some rule => .ok rule
          | none => .error (.ruleNotFound id), backend) := by
  intro h
  unfold Catalog.rule
  refine (onBackend_bind_of_ok (onBackend_demand h)).trans ?_
  cases found <;> rfl

/-- A rule is looked for in what is shown. -/
theorem onBackend_rule (h : backend.Shows view) (id : Int64) :
    (Catalog.rule id).onBackend backend =
      (match view.rule? id with
        | some rule => .ok rule
        | none => .error (.ruleNotFound id), backend) := onBackend_rule_of_serve (h.serve_findRule id)

/-- A rule that is activated takes over. -/
theorem exists_onBackend_activateRule (h : backend.Shows view) (hview : view.Consistent)
    (hroom : view.writeCount + 1 < 2 ^ 64) (hplaces : view.deviceTypes.length < 2 ^ 64) (hrule : view.Holds target) :
    ∃ stored after, (activateRule target.id).onBackend backend = (.ok stored, after) ∧
      TakesOver backend target stored after := by
  obtain ⟨first, made, hfirst, hshows, hkept, hfollows⟩ :=
    h.exists_of_written hplaces (MemoryStore.serve_setRuleActive_of_some true hrule) rfl (by simp [StoreCall.inserted?])
  have hfollows : view.Follows (target.keptAs backend.kept true (view.revision + 1)) made := hfollows
  have hplacesMade : made.deviceTypes.length < 2 ^ 64 := by rwa [hfollows.deviceTypes_eq]
  obtain ⟨last, final, hsettled, hfinal, -, hretires⟩ := exists_onBackend_settleSiblings hshows hplacesMade target
  rw [hkept] at hretires
  have htakes := takesOver_of_retires h hview hroom hfollows hshows.keyed hretires hfinal
  refine ⟨_, last, ?_, htakes⟩
  have hstored := hfinal.stores_iff.1 htakes.stores
  have hfound := onBackend_rule h target.id
  have hanswer := onBackend_rule hfinal target.id
  rw [show view.rule? target.id = some target from hrule] at hfound
  rw [show final.rule? target.id = some (target.keptAs backend.kept true (view.revision + 1)) from hstored] at hanswer
  unfold activateRule
  refine (onBackend_bind_of_ok hfound).trans ?_
  refine (onBackend_bind_of_ok (onBackend_demand hfirst)).trans ?_
  exact (onBackend_bind_of_ok hsettled).trans hanswer

/-- A rule that is created as active is inserted, and its siblings are settled. -/
theorem onBackend_createRule_of_active {id createdAt : Int64} {draft : RuleDraft} {new : NewRule} {created : Rule}
    (haccept : draft.accept = .ok new)
    (hmade : backend.serve (.insertRule (new.stamped id createdAt)) = (.ok created, made))
    (hactive : created.isActive = true) :
    (createRule id createdAt draft).onBackend backend =
      (do settleSiblings created; pure created : CatalogProgram Rule).onBackend made := by
  unfold createRule
  refine (onBackend_bind_of_ok (onBackend_ofExcept haccept)).trans ?_
  refine (onBackend_bind_of_ok (onBackend_demand hmade)).trans ?_
  rw [if_pos hactive]

/-- A rule that is created as active takes over, with a stamp after those of all rules before it. -/
theorem exists_onBackend_createRule_stamped (h : backend.Shows view) (hview : view.Consistent)
    (hroom : view.writeCount + 1 < 2 ^ 64) (hplaces : view.deviceTypes.length < 2 ^ 64) {id createdAt : Int64}
    {draft : RuleDraft} {new : NewRule} (hnew : draft.accept = .ok new) (hactive : new.isActive = true)
    (hbody : backend.Rereads new.body) (hfree : view.rule? id = none) :
    ∃ stored after last,
      (createRule id createdAt draft).onBackend backend = (.ok { stored with body := new.body }, after) ∧
        after.Shows last ∧ view.writeCount < stored.stamp ∧ TakesOver backend (new.stamped id createdAt) stored after := by
  have hfree : view.rule? (new.stamped id createdAt).id = none := hfree
  have hinserted : ∀ body, some new.body = some body → backend.Rereads body := fun _ hsome => Option.some.inj hsome ▸ hbody
  obtain ⟨first, made, hfirst, hshows, hkept, hfollows⟩ :=
    h.exists_of_written hplaces (MemoryStore.serve_insertRule_of_none hfree) rfl hinserted
  have hsame : (new.stamped id createdAt).keptAs backend.kept true (view.revision + 1) =
      { new.stamped id createdAt with body := backend.kept new.body, revision := view.revision + 1 } := by
    simp [Rule.keptAs, NewRule.stamped, hactive]
  have hfollows : view.Follows ((new.stamped id createdAt).keptAs backend.kept true (view.revision + 1)) made :=
    hsame ▸ hfollows
  have hplacesMade : made.deviceTypes.length < 2 ^ 64 := by rwa [hfollows.deviceTypes_eq]
  obtain ⟨last, final, hsettled, hfinal, -, hretires⟩ :=
    exists_onBackend_settleSiblings hshows hplacesMade { new.stamped id createdAt with revision := view.revision + 1 }
  rw [hkept] at hretires
  have hlatest : view.writeCount < ((new.stamped id createdAt).keptAs backend.kept true (view.revision + 1)).stamp := by
    rw [hfollows.stamp_eq_writeCount, hfollows.writeCount_eq (hfollows.writeCount_le hroom)]
    exact Nat.lt_succ_self _
  refine ⟨_, last, final, ?_, hfinal, hlatest, takesOver_of_retires h hview hroom hfollows hshows.keyed hretires hfinal⟩
  rw [hsame]
  exact (onBackend_createRule_of_active hnew hfirst hactive).trans (onBackend_bind_of_ok hsettled)

/-- A rule that is created as active takes over. -/
theorem exists_onBackend_createRule (h : backend.Shows view) (hview : view.Consistent)
    (hroom : view.writeCount + 1 < 2 ^ 64) (hplaces : view.deviceTypes.length < 2 ^ 64) {id createdAt : Int64}
    {draft : RuleDraft} {new : NewRule} (hnew : draft.accept = .ok new) (hactive : new.isActive = true)
    (hbody : backend.Rereads new.body) (hfree : view.rule? id = none) :
    ∃ stored after, (createRule id createdAt draft).onBackend backend = (.ok { stored with body := new.body }, after) ∧
      TakesOver backend (new.stamped id createdAt) stored after := by
  obtain ⟨stored, after, -, hcreated, -, -, htakes⟩ :=
    exists_onBackend_createRule_stamped h hview hroom hplaces hnew hactive hbody hfree
  exact ⟨stored, after, hcreated, htakes⟩

/-- In every state that fewer than 2^64 writes can leave a backend in and in which all stored rules can be read, also if
several siblings are active and types share aliases: the activation of an unknown id fails and changes nothing, the
activation of a stored rule takes over, and so does the creation of an active rule under a free id with a body that can be
read again. The answer to a creation has the body as it was given. -/
theorem activation_takesOver {count : Nat} (h : backend.Reachable count) (hreadable : backend.Readable)
    (hcount : count + 1 < 2 ^ 64) (id : Int64) :
    ((∀ rule, backend.Stores rule → rule.id ≠ id) →
      (activateRule id).onBackend backend = (.error (.ruleNotFound id), backend)) ∧
    (∀ target, backend.Stores target → target.id = id →
      ∃ stored after, (activateRule id).onBackend backend = (.ok stored, after) ∧
        TakesOver backend target stored after) ∧
    ∀ createdAt draft new, draft.accept = .ok new → new.isActive = true → backend.Rereads new.body →
      (∀ rule, backend.Stores rule → rule.id ≠ id) →
      ∃ stored after,
        (createRule id createdAt draft).onBackend backend = (.ok { stored with body := new.body }, after) ∧
          TakesOver backend (new.stamped id createdAt) stored after := by
  obtain ⟨view, hshows, hconsistent, hle⟩ := h.exists_shows hreadable (by omega)
  have hfree : (∀ rule, backend.Stores rule → rule.id ≠ id) → view.rule? id = none := by
    intro hunknown
    by_contra hsome
    obtain ⟨rule, hrule⟩ := Option.ne_none_iff_exists'.1 hsome
    have hheld := hconsistent.keyed.holds_of_rule? hrule
    exact hunknown rule (hshows.stores_iff.2 hheld) (hconsistent.keyed.id_eq_of_rule? hrule)
  refine ⟨fun hunknown => ?_, ?_, fun createdAt draft new hnew hactive hbody hunknown => ?_⟩
  · have hfound := onBackend_rule hshows id
    rw [hfree hunknown] at hfound
    exact run_bind_of_error hfound
  · rintro target htarget rfl
    exact exists_onBackend_activateRule hshows hconsistent (by omega) (by omega) (hshows.stores_iff.1 htarget)
  · exact exists_onBackend_createRule hshows hconsistent (by omega) (by omega) hnew hactive hbody (hfree hunknown)

/-- A rule with a body under an alias. -/
private def storedRule (id : Int64) (typeAlias : String) (isActive : Bool) (body : Json) (revision : UInt64) :
    Rule where
  id
  typeAlias
  kind := Rule.pricingKind
  version := 1
  isActive
  body
  createdAt := 10
  revision

/-- Register two types with the same code, store two active rules under aliases of the first, one that is not active
under the code, and an active one under the name of the second. -/
private def crowding : CatalogProgram Unit := do
  let _ ← demand (.insertDeviceType ⟨"t1", some "PH", "Phone"⟩)
  let _ ← demand (.insertDeviceType ⟨"t2", some "PH", "Tablet"⟩)
  let _ ← demand (.insertRule (storedRule 1 "t1" true (.object []) 0))
  let _ ← demand (.insertRule (storedRule 2 "Phone" true (.object []) 0))
  let _ ← demand (.insertRule (storedRule 3 "PH" false (.object []) 0))
  let _ ← demand (.insertRule (storedRule 4 "Tablet" true (.object []) 0))

/-- Tables with several active rules. -/
private def crowded : Backend := (crowding.onBackend (.tables .empty)).2

/-- An active rule under the code. -/
private def codeDraft : RuleDraft := ⟨"PH", Rule.pricingKind, none, some true, .object []⟩

/-- A stored rule and a new one take over from several active siblings. -/
theorem activation_takesOver_crowded :
    crowded.Reachable 6 ∧ crowded.Readable ∧ 6 + 1 < 2 ^ 64 ∧
      (∃ stored after, (activateRule 3).onBackend crowded = (.ok stored, after) ∧
        TakesOver crowded (storedRule 3 "PH" false (.object []) 3) stored after) ∧
      ∃ stored after, (createRule 5 50 codeDraft).onBackend crowded = (.ok { stored with body := .object [] }, after) ∧
        TakesOver crowded ⟨5, "PH", Rule.pricingKind, 1, true, .object [], 50, 0⟩ stored after := by
  have hcount : 0 + crowding.run.recordsWritten (.tables .empty) = 6 := by decide +kernel
  have hreachable : crowded.Reachable 6 := hcount ▸ Backend.Reachable.newTables.run crowding.run
  have hunknown : ∀ rule, crowded.Stores rule → rule.id ≠ 5 := by
    intro rule hrule hid
    have hnone : (crowded.serve (.findRule 5)).1 = .ok none := by decide +kernel
    rw [Backend.Stores, hid, hnone] at hrule
    cases hrule
  have hreadable : crowded.Readable := by decide +kernel
  obtain ⟨-, hactivated, -⟩ := activation_takesOver hreachable hreadable (by decide) 3
  obtain ⟨-, -, hcreated⟩ := activation_takesOver hreachable hreadable (by decide) 5
  refine ⟨hreachable, hreadable, by decide, hactivated _ (by decide +kernel) rfl, ?_⟩
  exact hcreated 50 codeDraft ⟨"PH", Rule.pricingKind, 1, true, .object []⟩ (by decide +kernel) rfl (by decide +kernel)
    hunknown

/-- An object with a binary64 number a few places above 6.458023373509767e242. -/
private def weightBody (places : Fin 8) : Json :=
  .object [("weight", .number (.binary ⟨false, ⟨8239395385945212840 + places, by omega⟩⟩))]

/-- Store a rule that is not active. -/
private def weighing : CatalogProgram Rule := demand (.insertRule (storedRule 1 "PH" false (weightBody 1) 0))

/-- Tables with a rule that is not active. -/
private def weighed : Backend := (weighing.onBackend (.tables .empty)).2

/-- An activation can change the body of its rule: the number that was read is written with its shortest digits, and
another number is read from these. -/
theorem activation_changes_body :
    ∃ stored after, weighed.Reachable 1 ∧ weighed.Stores (storedRule 1 "PH" false (weightBody 2) 1) ∧
      (activateRule 1).onBackend weighed = (.ok stored, after) ∧ after.Stores stored ∧
      stored.body = weightBody 3 ∧ stored.body ≠ weightBody 2 := by
  have hcount : 0 + weighing.run.recordsWritten (.tables .empty) = 1 := by decide +kernel
  have hreachable : weighed.Reachable 1 := hcount ▸ Backend.Reachable.newTables.run weighing.run
  refine ⟨storedRule 1 "PH" true (weightBody 3) 2, ((activateRule 1).onBackend weighed).2, hreachable, ?_⟩
  decide +kernel

end Catalog

end TradeIn
