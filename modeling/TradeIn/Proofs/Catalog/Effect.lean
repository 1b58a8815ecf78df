import Mathlib.Data.List.Nodup
import TradeIn.Proofs.Catalog.Alone

/-!
# The writes of an operation alone

How many rules an operation writes when it runs alone, and which ones. Settling writes those that it makes inactive,
and all others stay as they are with their revisions (`Deactivates`). The rule that was activated has the latest stamp,
so as long as the revisions last it is the one that settling spares.
-/

namespace TradeIn

namespace StoreProgram

variable {α β : Type}

/-- How many rules a program writes that runs alone. -/
def writes : StoreProgram α → MemoryStore → Nat
  | done _, _ => 0
  | call request next, store =>
    let answered := store.serve request
    (request.written? answered.1).toList.length + (next answered.1).writes answered.2

/-- What follows a program writes rules after it. -/
theorem writes_andThen (program : StoreProgram α) (f : α → StoreProgram β) (store : MemoryStore) :
    (program.andThen f).writes store =
      program.writes store +
        (f (program.run MemoryStore.serve store).1).writes (program.run MemoryStore.serve store).2 := by
  induction program generalizing store with
  | done result => exact (Nat.zero_add _).symm
  | call request next ih =>
    simp only [andThen, writes, run, ih]
    omega

/-- As long as the revisions last, a store stays consistent and counts all writes. -/
theorem consistent_run (program : StoreProgram α) {store : MemoryStore} (h : store.Consistent)
    (hroom : store.writeCount + program.writes store < 2 ^ 64) :
    (program.run MemoryStore.serve store).2.Consistent ∧
      (program.run MemoryStore.serve store).2.writeCount = store.writeCount + program.writes store := by
  induction program generalizing store with
  | done result => exact ⟨h, rfl⟩
  | call request next ih =>
    simp only [writes, run] at hroom ⊢
    have hcount : (store.serve request).2.writeCount =
        store.writeCount + (request.written? (store.serve request).1).toList.length := by
      rcases h.keyed.serve_cases request with ⟨rule, hwritten, -, hfollows⟩ | ⟨hnone, -, hrevision⟩
      · rw [hwritten] at hroom ⊢
        simp only [Option.toList_some, List.length_singleton] at hroom ⊢
        exact hfollows.writeCount_eq (hfollows.writeCount_le (by omega))
      · rw [hnone, MemoryStore.writeCount, hrevision]
        rfl
    have hroomFor : store.HasRoomFor request := by
      unfold MemoryStore.HasRoomFor
      omega
    obtain ⟨hconsistent, hlast⟩ := ih (store.serve request).1 (h.serve hroomFor) (by omega)
    exact ⟨hconsistent, by omega⟩

end StoreProgram

namespace CatalogProgram

variable {α β : Type}

/-- How many rules an operation writes that runs alone. -/
def writes (program : CatalogProgram α) (store : MemoryStore) : Nat := StoreProgram.writes program.run store

/-- An operation that runs alone ends with a result, leaves a store and has written so many rules. -/
def Yields (program : CatalogProgram α) (store : MemoryStore) (result : Except PricingError α) (after : MemoryStore)
    (written : Nat) : Prop :=
  program.alone store = (result, after) ∧ program.writes store = written

variable {store after last : MemoryStore} {program : CatalogProgram β} {next : β → CatalogProgram α}

/-- An operation goes on with a result. -/
theorem Yields.bind {value : β} {result : Except PricingError α} {first second : Nat}
    (h : program.Yields store (.ok value) after first) (hnext : (next value).Yields after result last second) :
    (program >>= next).Yields store result last (first + second) := by
  have hrun : (program >>= next).run = program.run.andThen fun result => ExceptT.bindCont next result := rfl
  obtain ⟨halone, hwrites⟩ := h
  refine ⟨(alone_bind_of_ok halone).trans hnext.1, ?_⟩
  rw [alone] at halone
  rw [writes, hrun, StoreProgram.writes_andThen, halone]
  exact congrArg₂ _ hwrites hnext.2

/-- An operation ends with an error, after which nothing is written. -/
theorem Yields.bind_error {error : PricingError} {written : Nat}
    (h : program.Yields store (.error error) after written) :
    (program >>= next).Yields store (.error error) after written := by
  have hrun : (program >>= next).run = program.run.andThen fun result => ExceptT.bindCont next result := rfl
  obtain ⟨halone, hwrites⟩ := h
  refine ⟨alone_bind_of_error halone, ?_⟩
  rw [alone] at halone
  rw [writes, hrun, StoreProgram.writes_andThen, halone]
  exact hwrites

/-- A result that is there is given without writing. -/
theorem yields_ofExcept (result : Except PricingError α) (store : MemoryStore) :
    (ofExcept result).Yields store result store 0 := ⟨rfl, rfl⟩

/-- A call that is answered gives its answer, and has written one rule or none. -/
theorem yields_demand {request : StoreCall} {answer : request.Answer}
    (h : store.serve request = (.ok answer, after)) :
    (demand request).Yields store (.ok answer) after (request.written? (.ok answer)).toList.length := by
  constructor
  · rw [alone_demand, h]
    rfl
  · change (request.written? (store.serve request).1).toList.length = _
    rw [h]

/-- A call that is refused ends with the error, and has written nothing. -/
theorem yields_demand_error {request : StoreCall} {error : StoreError}
    (h : store.serve request = (.error error, after)) :
    (demand request).Yields store (.error (.ofStore error)) after 0 := by
  constructor
  · rw [alone_demand, h]
    rfl
  · change (request.written? (store.serve request).1).toList.length = _
    rw [h]
    cases request <;> rfl

end CatalogProgram

namespace MemoryStore

variable {store after : MemoryStore} {ids : List Int64} {rule target : Rule}

/-- The rules under some ids were made inactive, with new stamps; all others are as they were. -/
structure Deactivates (store : MemoryStore) (ids : List Int64) (after : MemoryStore) : Prop where
  rules_eq : ∃ stamp : Int64 → UInt64, after.rules = store.rules.map fun entry =>
    if entry.1 ∈ ids then (entry.1, entry.2.rewritten false (stamp entry.1)) else entry
  deviceTypes_eq : after.deviceTypes = store.deviceTypes

/-- Without ids nothing has changed. -/
theorem deactivates_nil (store : MemoryStore) : store.Deactivates [] store := ⟨⟨fun _ => 0, by simp⟩, rfl⟩

/-- Rules are made inactive one after the other. -/
theorem Deactivates.of_updateRule (h : store.Keyed) (hrule : store.Holds rule) (hnew : rule.id ∉ ids)
    (hrest : (store.updateRule rule.id rule false).2.Deactivates ids after) :
    store.Deactivates (rule.id :: ids) after := by
  obtain ⟨⟨stamp, hrules⟩, htypes⟩ := hrest
  refine ⟨⟨fun id => if id = rule.id then store.revision + 1 else stamp id, ?_⟩, htypes⟩
  rw [hrules, updateRule, List.map_map]
  refine List.map_congr_left fun entry hentry => ?_
  by_cases hid : entry.1 = rule.id
  · have hsame : entry.2 = rule := by
      have hheld := Table.get?_of_mem h.1 (show (entry.1, entry.2) ∈ store.rules from hentry)
      rw [hid] at hheld
      exact Option.some.inj (hheld.symm.trans hrule)
    simp [hid, hnew, hsame, Rule.rewritten]
  · by_cases hother : entry.1 ∈ ids <;> simp [hid, hother]

/-- Making held rules inactive one after the other does just that, with one write for each. -/
theorem Keyed.deactivate_yields {losers : List Rule} (h : store.Keyed) (hheld : ∀ loser ∈ losers, store.Holds loser)
    (hids : (losers.map Rule.id).Nodup) :
    ∃ after, (Catalog.deactivate losers).Yields store (.ok ()) after losers.length ∧
      store.Deactivates (losers.map Rule.id) after := by
  induction losers generalizing store with
  | nil => exact ⟨store, CatalogProgram.yields_ofExcept (.ok ()) store, deactivates_nil store⟩
  | cons loser losers ih =>
    obtain ⟨hloser, hothers⟩ := List.forall_mem_cons.1 hheld
    obtain ⟨hnew, hids⟩ := List.nodup_cons.1 hids
    obtain ⟨-, hfollows⟩ := h.follows_updateRule false hloser
    -- The other rules are still held as they were read.
    have hstill : ∀ other ∈ losers, (store.updateRule loser.id loser false).2.Holds other := by
      intro other hother
      have hne : other.id ≠ loser.id := fun heq => hnew (heq ▸ List.mem_map_of_mem hother)
      exact hfollows.holds_iff.2 (.inr ⟨hne, hothers other hother⟩)
    obtain ⟨after, hyields, hdeactivates⟩ := ih (keyed_updateRule h false hloser) hstill hids
    refine ⟨after, ?_, .of_updateRule h hloser hnew hdeactivates⟩
    rw [List.length_cons, Nat.add_comm]
    exact (CatalogProgram.yields_demand (serve_setRuleActiveIf_of_eq false hloser)).bind hyields

/-- All rules are under their ids afterwards. -/
theorem Deactivates.keyed (hdeactivates : store.Deactivates ids after) (h : store.Keyed) : after.Keyed := by
  obtain ⟨⟨stamp, hrules⟩, -⟩ := hdeactivates
  constructor
  · have hkeys : after.rules.map Prod.fst = store.rules.map Prod.fst := by
      rw [hrules, List.map_map]
      refine List.map_congr_left fun entry _ => ?_
      simp only [Function.comp_apply]
      split <;> rfl
    rw [hkeys]
    exact h.1
  · intro entry hentry
    rw [hrules] at hentry
    obtain ⟨before, hbefore, rfl⟩ := List.mem_map.1 hentry
    split <;> exact h.2 before hbefore

/-- A rule that was stored before is the record of one that is stored afterwards. -/
theorem Deactivates.exists_after (hdeactivates : store.Deactivates ids after) (h : store.Keyed)
    (hrule : store.Holds rule) : ∃ now, after.Holds now ∧ rule.SameRecord now := by
  have hkeyed := hdeactivates.keyed h
  obtain ⟨⟨stamp, hrules⟩, -⟩ := hdeactivates
  have hmem := List.mem_map_of_mem (f := fun entry : Int64 × Rule =>
    if entry.1 ∈ ids then (entry.1, entry.2.rewritten false (stamp entry.1)) else entry) (Table.mem_of_get? hrule)
  rw [← hrules] at hmem
  split at hmem
  · exact ⟨_, hkeyed.mem_rules_iff.1 (List.mem_map_of_mem hmem), Rule.sameRecord_rewritten _ _ _⟩
  · exact ⟨rule, hkeyed.mem_rules_iff.1 (List.mem_map_of_mem hmem), .refl rule⟩

/-- A rule that is stored afterwards was stored before, or was made inactive. -/
theorem Deactivates.cases (hdeactivates : store.Deactivates ids after) (h : store.Keyed) (hrule : after.Holds rule) :
    (rule.id ∉ ids ∧ store.Holds rule) ∨
      (rule.isActive = false ∧ ∃ before, store.Holds before ∧ before.SameRecord rule) := by
  obtain ⟨⟨stamp, hrules⟩, -⟩ := hdeactivates
  have hmem := Table.mem_of_get? hrule
  rw [hrules] at hmem
  obtain ⟨entry, hentry, heq⟩ := List.mem_map.1 hmem
  have hbefore : store.Holds entry.2 := h.mem_rules_iff.1 (List.mem_map_of_mem hentry)
  split at heq
  · obtain ⟨-, rfl⟩ := Prod.mk.inj heq
    exact .inr ⟨rfl, entry.2, hbefore, Rule.sameRecord_rewritten _ _ _⟩
  · next hspared =>
    subst heq
    exact .inl ⟨hspared, hbefore⟩

/-- So it is the record of one that was stored before. -/
theorem Deactivates.exists_before (hdeactivates : store.Deactivates ids after) (h : store.Keyed)
    (hrule : after.Holds rule) : ∃ before, store.Holds before ∧ before.SameRecord rule := by
  rcases hdeactivates.cases h hrule with ⟨-, hbefore⟩ | ⟨-, hbefore⟩
  · exact ⟨rule, hbefore, .refl rule⟩
  · exact hbefore

/-- The rules that settling the siblings of a rule makes inactive. -/
def losersBeside (store : MemoryStore) (rule : Rule) : List Rule :=
  Rule.losers (store.activeRules (DeviceType.aliasClass store.deviceTypes rule.typeAlias) rule.kind)

/-- Settling makes the losers inactive. -/
theorem Keyed.settleSiblings_yields (h : store.Keyed) (rule : Rule) :
    ∃ after, (Catalog.settleSiblings rule).Yields store (.ok ()) after (store.losersBeside rule).length ∧
      store.Deactivates ((store.losersBeside rule).map Rule.id) after := by
  have hsublist := Rule.losers_sublist
    (store.activeRules (DeviceType.aliasClass store.deviceTypes rule.typeAlias) rule.kind)
  have hheld : ∀ loser ∈ store.losersBeside rule, store.Holds loser := fun loser hloser =>
    (h.mem_activeRules_iff.1 (hsublist.subset hloser)).1
  have hids : ((store.losersBeside rule).map Rule.id).Nodup :=
    (hsublist.map Rule.id).nodup (h.nodup_ids_listRules _)
  obtain ⟨after, hyields, hdeactivates⟩ := h.deactivate_yields hheld hids
  have hresolved : (CatalogProgram.ofProgram (Catalog.resolve rule.typeAlias)).Yields store
      (.ok (DeviceType.aliasClass store.deviceTypes rule.typeAlias)) store 0 := ⟨rfl, rfl⟩
  -- Neither the look-up nor the listing writes a rule.
  have hsettled : (Catalog.settleSiblings rule).Yields store (.ok ()) after
      (0 + (0 + (store.losersBeside rule).length)) := by
    refine hresolved.bind ?_
    exact (CatalogProgram.yields_demand rfl).bind hyields
  simp only [Nat.zero_add] at hsettled
  exact ⟨after, hsettled, hdeactivates⟩

/-- An active rule with the latest stamp is spared when its siblings are settled. -/
theorem Consistent.losersBeside_eq (h : store.Consistent) (hheld : store.Holds rule) (hactive : rule.isActive = true)
    (hlatest : rule.stamp = store.writeCount) :
    store.losersBeside rule =
      (store.activeRules (DeviceType.aliasClass store.deviceTypes rule.typeAlias) rule.kind).filter
        fun other => other.id ≠ rule.id := by
  have hmem := h.keyed.mem_activeRules_iff.2
    ⟨hheld, hactive, rfl, DeviceType.contains_aliasClass_self store.deviceTypes rule.typeAlias⟩
  obtain ⟨winner, hwinner, hstamps, hlosers⟩ := Rule.exists_winner hmem
  have hwinnerHeld := (h.keyed.mem_activeRules_iff.1 hwinner).1
  have hstamp := hstamps rule hmem
  have hcount := h.stamp_le winner hwinnerHeld
  obtain rfl := h.stamp_injective winner rule hwinnerHeld hheld (by omega)
  exact hlosers

/-- Settling the siblings of an active rule with the latest stamp makes exactly the other active ones inactive. -/
theorem Consistent.mem_ids_losersBeside_iff (h : store.Consistent) (hheld : store.Holds target)
    (hactive : target.isActive = true) (hlatest : target.stamp = store.writeCount) (hrule : store.Holds rule) :
    rule.id ∈ (store.losersBeside target).map Rule.id ↔
      rule.isActive = true ∧ rule.kind = target.kind ∧
        (DeviceType.aliasClass store.deviceTypes target.typeAlias).contains rule.typeAlias = true ∧
        rule.id ≠ target.id := by
  rw [h.losersBeside_eq hheld hactive hlatest]
  constructor
  · intro hmem
    obtain ⟨loser, hloser, hid⟩ := List.mem_map.1 hmem
    obtain ⟨hlisted, hne⟩ := List.mem_filter.1 hloser
    obtain ⟨hloserHeld, hloserActive, hkind, halias⟩ := h.keyed.mem_activeRules_iff.1 hlisted
    obtain rfl := hloserHeld.eq_of_id_eq hrule hid
    exact ⟨hloserActive, hkind, halias, by simpa using hne⟩
  · rintro ⟨hruleActive, hkind, halias, hne⟩
    have hlisted := h.keyed.mem_activeRules_iff.2 ⟨hrule, hruleActive, hkind, halias⟩
    exact List.mem_map_of_mem (List.mem_filter.2 ⟨hlisted, by simpa using hne⟩)

/-- Of the active rules, all but one are losers. -/
theorem Keyed.length_losers (h : store.Keyed) {aliases : AliasSet} {kind : String}
    (hmem : rule ∈ store.activeRules aliases kind) :
    (Rule.losers (store.activeRules aliases kind)).length + 1 = (store.activeRules aliases kind).length := by
  obtain ⟨winner, hwinner, -, hlosers⟩ := Rule.exists_winner hmem
  have hids : ((store.activeRules aliases kind).map Rule.id).Nodup := h.nodup_ids_listRules _
  have herase : (Rule.losers (store.activeRules aliases kind)).map Rule.id =
      ((store.activeRules aliases kind).map Rule.id).erase winner.id := by
    rw [hids.erase_eq_filter, List.filter_map, hlosers]
    congr 2
    funext other
    simp [bne, Bool.beq_eq_decide_eq]
  have hlength := congrArg List.length herase
  rw [List.length_erase_of_mem (List.mem_map_of_mem hwinner), List.length_map, List.length_map] at hlength
  have hpos := List.length_pos_of_mem hmem
  omega

end MemoryStore

namespace Catalog

open CatalogProgram

variable {store : MemoryStore} {target : Rule} {new : NewRule} {id createdAt : Int64} {draft : RuleDraft}

/-- A rejected draft creates no rule. -/
theorem createRule_yields_of_rejected {error : PricingError} (hnew : draft.accept = .error error) :
    (createRule id createdAt draft).Yields store (.error error) store 0 := by
  have hrejected := yields_ofExcept draft.accept store
  rw [hnew] at hrejected
  unfold createRule
  rw [hnew]
  exact hrejected.bind_error

/-- Under a taken id no rule is created. -/
theorem createRule_yields_of_taken (hnew : draft.accept = .ok new) {taken : Rule}
    (hfound : store.rule? id = some taken) :
    (createRule id createdAt draft).Yields store
      (.error (.ofStore (.duplicate (StoreError.ruleName id)))) store 0 := by
  have haccepted := yields_ofExcept draft.accept store
  rw [hnew] at haccepted
  have hrefused : (demand (.insertRule (new.stamped id createdAt))).Yields store
      (.error (.ofStore (.duplicate (StoreError.ruleName id)))) store 0 :=
    yields_demand_error (MemoryStore.serve_insertRule_of_some hfound)
  change Yields (createRule id createdAt draft) store _ store (0 + 0)
  unfold createRule
  rw [hnew]
  exact haccepted.bind hrefused.bind_error

/-- The store after a rule was inserted with the next revision. -/
def inserted (store : MemoryStore) (rule : Rule) : MemoryStore :=
  { store with
    rules := (rule.id, { rule with revision := store.revision + 1 }) :: store.rules
    revision := store.revision + 1 }

/-- An accepted draft becomes a rule under a free id. If the rule is active, its siblings are settled. -/
theorem createRule_yields_of_accepted (h : store.Keyed) (hnew : draft.accept = .ok new)
    (hfree : store.rule? id = none) :
    let rule := new.stamped id createdAt
    let created : Rule := { rule with revision := store.revision + 1 }
    (rule.isActive = false →
      (createRule id createdAt draft).Yields store (.ok created) (inserted store rule) 1) ∧
    (rule.isActive = true → ∃ after,
      (createRule id createdAt draft).Yields store (.ok created) after
        (1 + ((inserted store rule).losersBeside created).length) ∧
      (inserted store rule).Deactivates (((inserted store rule).losersBeside created).map Rule.id) after) := by
  intro rule created
  have haccepted := yields_ofExcept draft.accept store
  rw [hnew] at haccepted
  have hinserted : (demand (.insertRule rule)).Yields store (.ok created) (inserted store rule) 1 :=
    yields_demand (MemoryStore.serve_insertRule_of_none hfree)
  constructor
  · intro hactive
    have hyields : (createRule id createdAt draft).Yields store (.ok created) (inserted store rule) (0 + (1 + 0)) := by
      unfold createRule
      rw [hnew]
      refine haccepted.bind ?_
      refine hinserted.bind ?_
      rw [if_neg (by simpa using hactive)]
      exact yields_ofExcept (.ok created) _
    exact hyields
  · intro hactive
    have hkeyed : (inserted store rule).Keyed := MemoryStore.keyed_insertRule h hfree _
    obtain ⟨after, hsettled, hdeactivates⟩ := hkeyed.settleSiblings_yields created
    have hyields : (createRule id createdAt draft).Yields store (.ok created) after
        (0 + (1 + (((inserted store rule).losersBeside created).length + 0))) := by
      unfold createRule
      rw [hnew]
      refine haccepted.bind ?_
      refine hinserted.bind ?_
      rw [if_pos (show created.isActive = true from hactive)]
      exact hsettled.bind (yields_ofExcept (.ok created) _)
    simp only [Nat.zero_add, Nat.add_zero] at hyields
    exact ⟨after, hyields, hdeactivates⟩

/-- A rule that is looked for is found under its id, and nothing is written. -/
theorem rule_yields_of_some {found : Rule} (h : store.rule? id = some found) :
    (rule id).Yields store (.ok found) store 0 := by
  have hfound : (demand (.findRule id)).Yields store (.ok (some found)) store 0 :=
    yields_demand (congrArg (fun result => (Except.ok result, store)) h)
  change Yields (rule id) store _ store (0 + 0)
  unfold rule
  refine hfound.bind ?_
  exact yields_ofExcept (.ok found) store

/-- Under an unknown id no rule is found. -/
theorem rule_yields_of_none (h : store.rule? id = none) :
    (rule id).Yields store (.error (.ruleNotFound id)) store 0 := by
  have hfound : (demand (.findRule id)).Yields store (.ok none) store 0 :=
    yields_demand (congrArg (fun result => (Except.ok result, store)) h)
  change Yields (rule id) store _ store (0 + 0)
  unfold rule
  refine hfound.bind ?_
  exact yields_ofExcept (.error (.ruleNotFound id)) store

/-- Under an unknown id nothing is activated. -/
theorem activateRule_yields_of_none (h : store.rule? id = none) :
    (activateRule id).Yields store (.error (.ruleNotFound id)) store 0 := by
  unfold activateRule
  exact (rule_yields_of_none h).bind_error

/-- A rule is made active, and then its siblings are settled. The answer is what is there under its id after that. -/
theorem activateRule_yields_of_some (h : store.Keyed) (hfound : store.rule? id = some target) :
    let made := (store.updateRule id target true).2
    ∃ after now, (activateRule id).Yields store (.ok now) after (1 + (made.losersBeside target).length) ∧
      made.Deactivates ((made.losersBeside target).map Rule.id) after ∧
      (target.rewritten true (store.revision + 1)).SameRecord now ∧ after.Holds now := by
  intro made
  obtain rfl : target.id = id := h.id_eq_of_rule? hfound
  obtain ⟨-, hfollows⟩ := h.follows_updateRule true hfound
  have hkeyed : made.Keyed := MemoryStore.keyed_updateRule h true hfound
  obtain ⟨after, hsettled, hdeactivates⟩ := hkeyed.settleSiblings_yields target
  obtain ⟨now, hnow, hsame⟩ := hdeactivates.exists_after hkeyed hfollows.holds
  have hid : now.id = target.id := hsame.id_eq
  have hfoundNow : after.rule? target.id = some now := hid ▸ hnow
  have hset : (demand (.setRuleActive target.id true)).Yields store (.ok (store.updateRule target.id target true).1)
      made 1 := yields_demand (MemoryStore.serve_setRuleActive_of_some true hfound)
  have hyields : (activateRule target.id).Yields store (.ok now) after
      (0 + (1 + ((made.losersBeside target).length + 0))) := by
    unfold activateRule
    refine (rule_yields_of_some hfound).bind ?_
    refine hset.bind ?_
    refine hsettled.bind ?_
    exact rule_yields_of_some hfoundNow
  simp only [Nat.zero_add, Nat.add_zero] at hyields
  exact ⟨after, now, hyields, hdeactivates, hsame, hnow⟩

namespace Operation

/-- The rule that an operation creates, before it is stored. -/
def created? : Operation → Option Rule
  | create id createdAt draft => draft.accept.toOption.map fun new => new.stamped id createdAt
  | activate _ => none

/-- The rule that an operation writes first: the one that it creates, or the stored one that it activates. -/
def target? (store : MemoryStore) : Operation → Option Rule
  | create id createdAt draft => (create id createdAt draft).created?
  | activate id => store.rule? id

/-- The first write of an operation: it inserts a rule under a free id, or makes a stored rule active. -/
inductive Begins (store : MemoryStore) : Operation → Rule → MemoryStore → Prop
  | insert {id createdAt : Int64} {draft : RuleDraft} {rule : Rule}
    (hcreated : (create id createdAt draft).created? = some rule) (hfree : store.rule? rule.id = none) :
    Begins store (create id createdAt draft) { rule with revision := store.revision + 1 } (inserted store rule)
  | update {id : Int64} {target : Rule} (hfound : store.rule? id = some target) :
    Begins store (activate id) (target.rewritten true (store.revision + 1)) (store.updateRule id target true).2

/-- All that an operation can do when it runs alone: its result, the store after it, and the number of its writes. -/
inductive Outcome (store : MemoryStore) (operation : Operation) :
    Except PricingError Rule → MemoryStore → Nat → Prop
  | refused {error : PricingError} (hrefused : operation.target? store = none ∨
      ∃ rule, operation.created? = some rule ∧ store.rule? rule.id ≠ none) :
    Outcome store operation (.error error) store 0
  | written {written : Rule} {made : MemoryStore} (hbegins : Begins store operation written made)
    (hinactive : written.isActive = false) : Outcome store operation (.ok written) made 1
  | settled {written answer : Rule} {made after : MemoryStore} (hbegins : Begins store operation written made)
    (hactive : written.isActive = true)
    (hsettled : made.Deactivates ((made.losersBeside written).map Rule.id) after)
    (hsame : written.SameRecord answer) (hanswer : answer = written ∨ after.Holds answer) :
    Outcome store operation (.ok answer) after (1 + (made.losersBeside written).length)

/-- What an operation yields is its outcome. -/
private theorem outcome_of_yields {operation : Operation} {program : CatalogProgram Rule}
    {result : Except PricingError Rule} {after : MemoryStore} {count : Nat} (hprogram : operation.program = program.run)
    (hyields : program.Yields store result after count) (houtcome : operation.Outcome store result after count) :
    operation.Outcome store (operation.alone store).1 (operation.alone store).2 (operation.program.writes store) := by
  obtain ⟨halone, hwrites⟩ := hyields
  rw [CatalogProgram.alone] at halone
  rw [CatalogProgram.writes] at hwrites
  rw [Operation.alone, hprogram, halone, hwrites]
  exact houtcome

/-- An operation does one of these things. -/
theorem outcome (h : store.Keyed) (operation : Operation) :
    operation.Outcome store (operation.alone store).1 (operation.alone store).2 (operation.program.writes store) := by
  cases operation with
  | create id createdAt draft =>
    cases hnew : draft.accept with
    | error error =>
      have hcreated : (create id createdAt draft).created? = none := by
        rw [created?, hnew]
        rfl
      exact outcome_of_yields rfl (createRule_yields_of_rejected hnew) (.refused (.inl hcreated))
    | ok new =>
      have hcreated : (create id createdAt draft).created? = some (new.stamped id createdAt) := by
        rw [created?, hnew]
        rfl
      cases hfound : store.rule? id with
      | some taken =>
        have htaken : store.rule? (new.stamped id createdAt).id ≠ none := Option.ne_none_iff_exists'.2 ⟨taken, hfound⟩
        exact outcome_of_yields rfl (createRule_yields_of_taken hnew hfound) (.refused (.inr ⟨_, hcreated, htaken⟩))
      | none =>
        obtain ⟨hwritten, hsettled⟩ := createRule_yields_of_accepted h hnew hfound
        cases hactive : (new.stamped id createdAt).isActive with
        | false => exact outcome_of_yields rfl (hwritten hactive) (.written (.insert hcreated hfound) hactive)
        | true =>
          obtain ⟨after, hyields, hdeactivates⟩ := hsettled hactive
          exact outcome_of_yields rfl hyields
            (.settled (.insert hcreated hfound) hactive hdeactivates (.refl _) (.inl rfl))
  | activate id =>
    cases hfound : store.rule? id with
    | none => exact outcome_of_yields rfl (activateRule_yields_of_none hfound) (.refused (.inl hfound))
    | some target =>
      obtain ⟨after, now, hyields, hdeactivates, hsame, hnow⟩ := activateRule_yields_of_some h hfound
      have hbegins : Begins store (activate id) (target.rewritten true (store.revision + 1)) _ := .update hfound
      exact outcome_of_yields rfl hyields
        (@Outcome.settled _ _ (target.rewritten true _) _ _ _ hbegins rfl hdeactivates hsame (.inr hnow))

variable {operation : Operation} {result : Except PricingError Rule} {written : Rule} {made after : MemoryStore}
  {count : Nat}

/-- After the first write all rules are under their ids. -/
theorem Begins.keyed (hbegins : Begins store operation written made) (h : store.Keyed) : made.Keyed := by
  cases hbegins with
  | insert hcreated hfree => exact MemoryStore.keyed_insertRule h hfree _
  | update hfound => exact MemoryStore.keyed_updateRule h true hfound

/-- The first write stores the rule that was written. -/
theorem Begins.follows (hbegins : Begins store operation written made) (h : store.Keyed) :
    store.Follows written made := by
  cases hbegins with
  | insert hcreated hfree => exact MemoryStore.follows_insertRule store _
  | update hfound => exact (h.follows_updateRule true hfound).2

/-- What is written first is the record of the target. -/
theorem Begins.exists_target (hbegins : Begins store operation written made) :
    ∃ target, operation.target? store = some target ∧ target.SameRecord written := by
  cases hbegins with
  | insert hcreated hfree => exact ⟨_, hcreated, rfl⟩
  | update hfound => exact ⟨_, hfound, rfl⟩

/-- A rule that is created is the target. -/
theorem target?_of_created? (hcreated : operation.created? = some target) (store : MemoryStore) :
    operation.target? store = some target := by
  cases operation with
  | create id createdAt draft => exact hcreated
  | activate id => cases hcreated

/-- The target is created, or stored before. -/
theorem created?_or_holds_of_target? (h : store.Keyed) (htarget : operation.target? store = some target) :
    operation.created? = some target ∨ store.Holds target := by
  cases operation with
  | create id createdAt draft => exact .inl htarget
  | activate id => exact .inr (h.holds_of_rule? htarget)

/-- A rule that is stored after the first write is the record of one that was stored before, or of the one that was
created. -/
theorem Begins.exists_before (hbegins : Begins store operation written made) (h : store.Keyed)
    (hrule : made.Holds target) :
    ∃ before, (operation.created? = some before ∨ store.Holds before) ∧ before.SameRecord target := by
  rcases (hbegins.follows h).holds_iff.1 hrule with rfl | ⟨-, hbefore⟩
  · obtain ⟨before, htarget, hsame⟩ := hbegins.exists_target
    exact ⟨before, created?_or_holds_of_target? h htarget, hsame⟩
  · exact ⟨target, .inr hbefore, .refl target⟩

/-- So is a rule that is stored after the operation. -/
theorem Outcome.exists_before (houtcome : operation.Outcome store result after count) (h : store.Keyed)
    (hrule : after.Holds target) :
    ∃ before, (operation.created? = some before ∨ store.Holds before) ∧ before.SameRecord target := by
  cases houtcome with
  | refused hrefused => exact ⟨target, .inr hrule, .refl target⟩
  | written hbegins hinactive => exact hbegins.exists_before h hrule
  | settled hbegins hactive hsettled hsame hanswer =>
    obtain ⟨earlier, hearlier, hlater⟩ := hsettled.exists_before (hbegins.keyed h) hrule
    obtain ⟨before, hbefore, hrecord⟩ := hbegins.exists_before h hearlier
    exact ⟨before, hbefore, hrecord.trans hlater⟩

/-- An operation without a target does nothing. -/
theorem Outcome.eq_of_none (houtcome : operation.Outcome store result after count)
    (hnone : operation.target? store = none) : after = store := by
  have habsurd : ∀ {written made}, ¬Begins store operation written made := by
    intro written made hbegins
    obtain ⟨target, htarget, -⟩ := hbegins.exists_target
    rw [hnone] at htarget
    cases htarget
  cases houtcome with
  | refused hrefused => rfl
  | written hbegins hinactive => exact absurd hbegins habsurd
  | settled hbegins hactive hsettled hsame hanswer => exact absurd hbegins habsurd

/-- An operation that may create its rule is refused only if it has no target. -/
theorem target?_eq_none_of_refused
    (hrefused : operation.target? store = none ∨ ∃ rule, operation.created? = some rule ∧ store.rule? rule.id ≠ none)
    (hfree : ∀ rule, operation.created? = some rule → store.rule? rule.id = none) : operation.target? store = none := by
  rcases hrefused with hnone | ⟨rule, hcreated, htaken⟩
  · exact hnone
  · exact absurd (hfree rule hcreated) htaken

/-- An operation with a target writes it, if it may create its rule. -/
theorem Outcome.one_le (houtcome : operation.Outcome store result after count)
    (hfree : ∀ rule, operation.created? = some rule → store.rule? rule.id = none)
    (hsome : operation.target? store = some target) : 1 ≤ count := by
  cases houtcome with
  | refused hrefused =>
    rw [target?_eq_none_of_refused hrefused hfree] at hsome
    cases hsome
  | written hbegins hinactive => exact Nat.le_refl 1
  | settled hbegins hactive hsettled hsame hanswer => exact Nat.le_add_right 1 _

/-- No operation registers a device type. -/
theorem Outcome.deviceTypes_eq (houtcome : operation.Outcome store result after count) (h : store.Keyed) :
    after.deviceTypes = store.deviceTypes := by
  cases houtcome with
  | refused hrefused => rfl
  | written hbegins hinactive => exact (hbegins.follows h).deviceTypes_eq
  | settled hbegins hactive hsettled hsame hanswer =>
    exact hsettled.deviceTypes_eq.trans (hbegins.follows h).deviceTypes_eq

end Operation

end Catalog

end TradeIn
